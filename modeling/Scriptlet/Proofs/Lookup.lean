import Mathlib
import Scriptlet.Proofs.Agreement

/-!
# Where a distance leads

Over any session, where a node that names a variable is evaluated, the frames around are those of the scopes around the
node, and the distance in the table leads to the frame of the scope that declares the name (`Moment.Scoped.visits`,
`History.Placed.holder`).  That frame holds the name, but for one case: the initializer of a variable assigns to this
very name (`Surroundings.Premature`).
-/
namespace Scriptlet

theorem Moment.Scoped.visits {H : History} {c : Moment} {o : Occurrence} {m : Machine} (h : c.Scoped H)
    (hh : H.Current c) (hv : c.Visits o m) :
    ∃ around, H.Known (around, o) ∧ H.Placed m.store around m.here ∧ m.bindings = c.machine.bindings := by
  obtain ⟨hs, h⟩ := h
  cases hv with
  | read =>
    obtain ⟨around, hp, hk⟩ := h
    exact ⟨around, hk _ (by simp [Expr.occurrences]), hp, rfl⟩
  | assign =>
    obtain ⟨around, hp, hk⟩ := h
    exact ⟨around, hk _ (by simp [Expr.occurrences]), hp, rfl⟩
  | write he =>
    obtain ⟨around, hp, hk⟩ := h
    obtain ⟨-, hp', hb⟩ := Moment.Scoped.after_eval (H.enters hh .assign) hs he
    exact ⟨around, hk _ (by simp [Expr.occurrences]), hp' hp, hb⟩

/-! ## Distances and frames -/

/-- The scope is the innermost one that declares the name before the place, and lies `d` scopes out. -/
structure Surroundings.DeclaredAt (around : Surroundings) (d : Nat) (p : LocalScope × Nat) (name : String) : Prop where
  scope : around[d]? = some p
  declared : name ∈ namesBefore p
  innermost : ∀ q ∈ around.take d, name ∉ namesBefore q

/-- The name is not there yet: the place is in its initializer, and the scope does not declare it before. -/
def Surroundings.Premature (around : Surroundings) (name : String) : Prop :=
  around.OwnInitializer name ∧ ∀ p ∈ around.head?, name ∉ p.1.names p.2

theorem Surroundings.declaredAt_of_distance? {around : Surroundings} {d : Nat} {name : String}
    (h : around.distance? name = some d) : ∃ p, around.DeclaredAt d p name := by
  obtain ⟨hd, hp, hq⟩ := List.findIdx?_eq_some_iff_getElem.1 h
  refine ⟨around[d], List.getElem?_eq_getElem hd, by simpa using hp, fun q hm => ?_⟩
  obtain ⟨j, hj, rfl⟩ := List.mem_take_iff_getElem.1 hm
  simpa using hq j (by omega)

theorem Surroundings.OwnInitializer.declared {around : Surroundings} {name : String} (h : around.OwnInitializer name) :
    ∃ p ∈ around.head?, name ∈ namesBefore p := by
  obtain ⟨p, hp, x, e, hb, rfl⟩ := h
  refine ⟨p, hp, ?_⟩
  rw [namesBefore, LocalScope.names_succ hb]
  simp [Stmt.declared?]

namespace History

variable {H : History} {s : Store} {around : Surroundings} {here : FrameId}

/-- The frames of the scopes, and the global frame behind them. -/
theorem Placed.chain (h : H.Placed s around here) :
    ∃ frames, s.chain here = frames ++ [Machine.globals] ∧ List.Forall₂ (fun p f => H.MadeFor f p.1) around frames := by
  cases around with
  | nil => exact ⟨[], h, .nil⟩
  | cons p outer =>
    obtain ⟨fs, hc, hm, -, hfs⟩ := h
    exact ⟨here :: fs, hc, .cons hm (hfs.imp fun _ _ h => h.1)⟩

theorem Framed.getElem? {fs : List FrameId} (h : H.Framed s around fs) {i : Nat} {p : LocalScope × Nat}
    (hp : around[i]? = some p) :
    ∃ f, fs[i]? = some f ∧ H.MadeFor f p.1 ∧ ∀ x ∈ namesBefore p, s.holds x f = true := by
  induction h generalizing i with
  | nil => cases hp
  | cons hpf _ ih =>
    cases i with
    | zero =>
      obtain rfl := Option.some.inj hp
      exact ⟨_, rfl, hpf.1, hpf.2.2⟩
    | succ i => exact ih hp

/-- **The distance leads to the frame of the scope that declares the name**, and the name is there unless it is
premature. -/
theorem Placed.holder (h : H.Placed s around here) (hs : around.Settled) {d : Nat} {p : LocalScope × Nat}
    {name : String} (hd : around.DeclaredAt d p name) :
    ∃ f, s.ancestor? here d = some f ∧ H.MadeFor f p.1 ∧ (s.holds name f = true ↔ ¬ around.Premature name) := by
  cases around with
  | nil => cases hd.scope
  | cons q outer =>
    obtain ⟨fs, hc, hm, hx, hfs⟩ := h
    unfold Store.ancestor?
    rw [hc]
    cases d with
    | zero =>
      obtain rfl := Option.some.inj hd.scope
      refine ⟨here, rfl, hm, ?_⟩
      rw [hx]
      refine ⟨fun hn hpre => hpre.2 q rfl hn, fun hpre => ?_⟩
      refine (hs q rfl name hd.declared).elim id fun ho => ?_
      by_contra hn
      exact hpre ⟨ho, fun p hp => by cases hp; exact hn⟩
    | succ d =>
      obtain ⟨f, hf, hm, hn⟩ := hfs.getElem? hd.scope
      have hq : name ∉ namesBefore q := hd.innermost q (by simp)
      refine ⟨f, ?_, hm, fun _ hpre => ?_, fun _ => hn _ hd.declared⟩
      · rw [List.cons_append, List.getElem?_cons_succ]
        exact List.getElem?_append_left (List.getElem?_eq_some_iff.1 hf).1 ▸ hf
      · obtain ⟨p, hp, hx⟩ := hpre.1.declared
        cases hp
        exact hq hx

end History

/-! ## Reads and writes -/

theorem lookUp_of_holds {m : Machine} {id d : Nat} {name : Token} {f : FrameId} (hd : m.bindings[id]? = some d)
    (hf : m.store.ancestor? m.here d = some f) (hx : m.store.holds name.lexeme f = true) :
    ∃ v, (m.store.cells f).lookup name.lexeme = some v ∧ Run.lookUp id name m = (.value v, m) := by
  have hh : m.holder? id name.lexeme = some f := by
    simp [Machine.holder?, hd, Store.holderAt?, hf, Option.filter, hx]
  rcases lookUp_cases id name m with ⟨g, v, hg, hv, hr⟩ | ⟨hn, -⟩
  · cases hh.symm.trans hg
    exact ⟨v, hv, hr⟩
  · cases hh.symm.trans hn

theorem assign_at_frame {m : Machine} {id d : Nat} (name : Token) {f : FrameId} (hd : m.bindings[id]? = some d)
    (hf : m.store.ancestor? m.here d = some f) (v : Value) : Run.assign id name v m =
      if m.store.holds name.lexeme f then (.value (), m.define f name.lexeme v)
      else (.failed (Store.undefined name), m) := by
  unfold Run.assign Machine.holder? Store.holderAt?
  cases hx : m.store.holds name.lexeme f <;> simp [hd, hf, Option.filter, hx]

theorem eval_assign_at {n id d : Nat} (name : Token) {e : Expr} {m m' : Machine} {v : Value} {f : FrameId}
    (he : e.eval (invoke n) m = (.value v, m')) (hd : m'.bindings[id]? = some d)
    (hf : m'.store.ancestor? m'.here d = some f) : (Expr.assign id name e).eval (invoke n) m =
      if m'.store.holds name.lexeme f then (.value v, m'.define f name.lexeme v)
      else (.failed (Store.undefined name), m') := by
  rw [Expr.eval, Run.bind_def, he]
  simp only [Run.bind_def, assign_at_frame name hd hf]
  cases m'.store.holds name.lexeme f <;> rfl

namespace Session

variable {s : Session} {texts : List Text} {t : Text} {c : Moment} {o : Occurrence} {m : Machine}

/-- What is known where a node is visited: its place, the frames, and what the table has for it. -/
theorem Sound.visits (h : s.Sound texts) (hc : (s.after texts).ComesTo t c) (hv : c.Visits o m) :
    ∃ around, (around, o) ∈ s.places (texts ++ [t]) ∧
      (∀ p ∈ s.places (texts ++ [t]), p.2.id = o.id → p = (around, o)) ∧
      (s.history (texts ++ [t])).Placed m.store around m.here ∧ around.Settled ∧
      (o.assigns = false → ¬ around.OwnInitializer o.name.lexeme) ∧
      m.bindings[o.id]? = around.distance? o.name.lexeme := by
  obtain ⟨hf, hh, ht⟩ := h.comesTo hc
  obtain ⟨around, hk, hp, hb⟩ := hf.visits hh hv
  have hk : (around, o) ∈ s.places (texts ++ [t]) := hk
  refine ⟨around, hk, fun p hp he => eq_of_id ht.nodup hp hk he, hp, ht.settled _ hk, ht.reads _ hk, ?_⟩
  rw [hb]
  exact ht.distance _ hk

/-- **A visited name that no frame holds** is global, or its assignment is premature. -/
theorem Sound.visits_undefined (h : s.Sound texts) (hc : (s.after texts).ComesTo t c) (hv : c.Visits o m)
    (hn : m.holder? o.id o.name.lexeme = none) : m.bindings[o.id]? = none ∨
      o.assigns = true ∧ ∃ around, (around, o) ∈ s.places (texts ++ [t]) ∧ around.Premature o.name.lexeme := by
  obtain ⟨around, hk, -, hp, hs, hr, hb⟩ := h.visits hc hv
  refine or_iff_not_imp_left.2 fun hd => ?_
  obtain ⟨d, hd⟩ := Option.ne_none_iff_exists'.1 hd
  obtain ⟨p, hdecl⟩ := Surroundings.declaredAt_of_distance? (hb.symm.trans hd)
  obtain ⟨f, hf, -, hx⟩ := hp.holder hs hdecl
  have hfree : ¬ m.store.holds o.name.lexeme f = true := by
    simpa [Machine.holder?, hd, Store.holderAt?, hf, Option.filter_eq_none_iff] using hn
  have hpre : around.Premature o.name.lexeme := not_not.1 fun hpre => hfree (hx.2 hpre)
  exact ⟨Bool.eq_true_of_not_eq_false fun ha => hr ha hpre.1, around, hk, hpre⟩

theorem failed_of_interpret {bound : Nat} {ss : List Stmt} {line : Nat} {cause : Cause}
    (h : (interpret bound ss m).1 = .runtimeFault (.run line cause)) :
    (Stmt.execAll (invoke bound) bound ss m).1 = .failed (.run line cause) := by
  unfold interpret Sink.flush at h
  rcases hr : Stmt.execAll (invoke bound) bound ss m with ⟨signal, m'⟩
  rw [hr] at h
  cases hf : m'.sink.flushable <;> simp only [hf] at h
  · cases h
  · cases signal <;> cases h
    rfl

theorem excused_of_ended {H : History} {a : Analysis} {bound : Nat} (hf : (s.starting bound a).Scoped H)
    (hh : H.Current (s.starting bound a)) {line : Nat} {cause : Cause}
    (hr : (s.ended bound a).1 = .runtimeFault (.run line cause)) : H.Excused (.run line cause) := by
  have he := ((H.invokes bound).execAll _ hh hf).ends
  have hfail := failed_of_interpret hr
  unfold starting at hfail
  rw [hfail] at he
  exact he

/-- **A run that fails at an undefined name** has visited a node of this name where no frame holds it. -/
theorem Sound.undefined (h : s.Sound texts) {line : Nat} {x : String}
    (hr : ((s.after texts).run t.bound t.source).1 = .runtimeFault (.run line (.undefinedVariable x))) :
    ∃ c o m, (s.after texts).ComesTo t c ∧ c.Visits o m ∧ m.holder? o.id o.name.lexeme = none ∧
      o.name.lexeme = x ∧ o.name.line = line := by
  by_cases ha : (s.after texts).Accepts t.source
  · rw [run_accepted ha] at hr
    obtain ⟨hf, hh⟩ := h.beginning ha
    obtain hne | ⟨c, o, m, ⟨earlier, u, he, hc⟩, hv, hn, hu⟩ := excused_of_ended hf hh hr
    · exact absurd rfl (hne line x)
    · obtain ⟨rfl, rfl⟩ := List.append_singleton_inj.1 he
      injection hu with hline hx
      injection hx with hx
      exact ⟨c, o, m, hc, hv, hn, hx.symm, hline.symm⟩
  · rw [run_rejected ha] at hr
    cases hr

/-! ## Sessions from the start -/

/-- The frames at the machine are those of the scopes around the one place of the occurrence, each made by entering its
block or calling its function, and the global frame.  A distance in the table leads to the frame of the innermost scope
that declares the name before the place, and there a read finds its value. -/
def FramesAgree (s : Session) (texts : List Text) (o : Occurrence) (m : Machine) : Prop :=
  ∃ around frames, (around, o) ∈ s.places texts ∧ (∀ p ∈ s.places texts, p.2.id = o.id → p = (around, o)) ∧
    m.store.chain m.here = frames ++ [Machine.globals] ∧
    List.Forall₂ (fun p f => (s.history texts).MadeFor f p.1) around frames ∧
    ∀ d, m.bindings[o.id]? = some d → ∃ p f, around.DeclaredAt d p o.name.lexeme ∧
      m.store.ancestor? m.here d = some f ∧ (s.history texts).MadeFor f p.1 ∧
      (o.assigns = false → m.store.holds o.name.lexeme f = true ∧ ∃ v, (m.store.cells f).lookup o.name.lexeme = some v ∧
        ∀ n, (Expr.variable o.id o.name).eval (invoke n) m = (.value v, m))

/-- **Binding and running agree on frames**: wherever a run of a session visits a node, the frames are those of the
scopes around it.  A read that fails has no distance. -/
theorem visited_frames_are_enclosing_scopes (sink : Sink) (clock : Nat → Number) (texts : List Text) (t : Text) :
    (∀ c o m, ((start sink clock).after texts).ComesTo t c → c.Visits o m →
      (start sink clock).FramesAgree (texts ++ [t]) o m) ∧
    ∀ line x, (((start sink clock).after texts).run t.bound t.source).1 =
        .runtimeFault (.run line (.undefinedVariable x)) →
      ∃ c o m, ((start sink clock).after texts).ComesTo t c ∧ c.Visits o m ∧ o.name.lexeme = x ∧ o.name.line = line ∧
        (o.assigns = false → m.bindings[o.id]? = none) := by
  have hsound := session_sound sink clock texts
  refine ⟨fun c o m hc hv => ?_, fun line x hr => ?_⟩
  · obtain ⟨around, hk, hu, hp, hs, hr, hb⟩ := hsound.visits hc hv
    obtain ⟨frames, hchain, hmade⟩ := hp.chain
    refine ⟨around, frames, hk, hu, hchain, hmade, fun d hd => ?_⟩
    obtain ⟨p, hdecl⟩ := Surroundings.declaredAt_of_distance? (hb.symm.trans hd)
    obtain ⟨f, hf, hm, hx⟩ := hp.holder hs hdecl
    refine ⟨p, f, hdecl, hf, hm, fun ha => ?_⟩
    have hheld := hx.2 fun hpre => hr ha hpre.1
    obtain ⟨v, hv, he⟩ := lookUp_of_holds hd hf hheld
    exact ⟨hheld, v, hv, fun n => by rw [Expr.eval, he]⟩
  · obtain ⟨c, o, m, hc, hv, hn, hx, hl⟩ := hsound.undefined hr
    refine ⟨c, o, m, hc, hv, hx, hl, fun ha => (hsound.visits_undefined hc hv hn).resolve_right fun hpre => ?_⟩
    rw [ha] at hpre
    cases hpre.1

/-- Whether a variable with the distance is read at the moment. -/
def readsAt (d : Nat) (c : Moment) : Bool :=
  match c.task with
  | .eval (.variable id _) => c.machine.bindings[id]? == some d
  | _ => false

theorem exists_of_readsAt {d : Nat} {c : Moment} (h : readsAt d c = true) :
    ∃ n id name m, c = ⟨n, .eval (.variable id name), m⟩ ∧ m.bindings[id]? = some d := by
  obtain ⟨n, task, m⟩ := c
  unfold readsAt at h
  dsimp only at h
  split at h
  · exact ⟨n, _, _, m, rfl, by simpa using h⟩
  · cases h

/-- In a block of a function that an earlier text has declared, with a text in between that fails. -/
theorem visited_frames_in_called_block : ∃ c id name m,
    ((start .unlimited fun _ => .ofNat 0).after [⟨9, "fun f(n) { { var k = n; return k; } }"⟩, ⟨9, "g;"⟩]).ComesTo
      ⟨9, "f(1);"⟩ c ∧ c.Visits ⟨id, name, false⟩ m ∧ m.bindings[id]? = some 0 ∧
      (start .unlimited fun _ => .ofNat 0).FramesAgree
        ([⟨9, "fun f(n) { { var k = n; return k; } }"⟩, ⟨9, "g;"⟩] ++ [⟨9, "f(1);"⟩]) ⟨id, name, false⟩ m := by
  obtain ⟨c, hc, ht⟩ := exists_comesTo (s := (start .unlimited fun _ => .ofNat 0).after
    [⟨9, "fun f(n) { { var k = n; return k; } }"⟩, ⟨9, "g;"⟩]) (t := ⟨9, "f(1);"⟩) (by decide +kernel)
    [0, 0, 2, 0, 0, 0, 1, 0, 0] (show Option.any (readsAt 0) _ = true by decide +kernel)
  obtain ⟨n, id, name, m, rfl, hd⟩ := exists_of_readsAt ht
  exact ⟨_, id, name, m, hc, .read, hd, (visited_frames_are_enclosing_scopes _ _ _ _).1 _ _ _ hc .read⟩

/-- What an assignment with the distance `d` does once its right side has the value: it writes to the frame that the
distance leads to, which holds the name, unless it is premature; then it fails. -/
def Writes (s : Session) (texts : List Text) (n id d : Nat) (name : Token) (e : Expr) (m m' : Machine)
    (v : Value) : Prop :=
  ∃ around p f, (around, ⟨id, name, true⟩) ∈ s.places texts ∧ around.DeclaredAt d p name.lexeme ∧
    m'.store.ancestor? m'.here d = some f ∧ (s.history texts).MadeFor f p.1 ∧
    (¬ around.Premature name.lexeme → m'.store.holds name.lexeme f = true ∧
      (Expr.assign id name e).eval (invoke n) m = (.value v, m'.define f name.lexeme v)) ∧
    (around.Premature name.lexeme → m'.store.holds name.lexeme f = false ∧
      (Expr.assign id name e).eval (invoke n) m = (.failed (Store.undefined name), m'))

/-- **An assignment with a distance writes to a name that is there**, unless it is in the initializer of a name that the
scope does not declare before.  A run that fails at an undefined name has come to such an assignment, or to a node
without a distance. -/
theorem assignment_writes_unless_premature (sink : Sink) (clock : Nat → Number) (texts : List Text) (t : Text) :
    (∀ n id d name e m m' v, ((start sink clock).after texts).ComesTo t ⟨n, .eval (.assign id name e), m⟩ →
      e.eval (invoke n) m = (.value v, m') → m'.bindings[id]? = some d →
        (start sink clock).Writes (texts ++ [t]) n id d name e m m' v) ∧
    ∀ line x, (((start sink clock).after texts).run t.bound t.source).1 =
        .runtimeFault (.run line (.undefinedVariable x)) →
      ∃ c o m, ((start sink clock).after texts).ComesTo t c ∧ c.Visits o m ∧ o.name.lexeme = x ∧ o.name.line = line ∧
        (m.bindings[o.id]? = none ∨ o.assigns = true ∧
          ∃ around, (around, o) ∈ (start sink clock).places (texts ++ [t]) ∧ around.Premature x) := by
  have hsound := session_sound sink clock texts
  refine ⟨fun n id d name e m m' v hc he hd => ?_, fun line x hr => ?_⟩
  · obtain ⟨around, hk, -, hp, hs, -, hb⟩ := hsound.visits hc (.write he)
    obtain ⟨p, hdecl⟩ := Surroundings.declaredAt_of_distance? (hb.symm.trans hd)
    obtain ⟨f, hf, hm, hx⟩ := hp.holder hs hdecl
    have hrun := eval_assign_at name he hd hf
    refine ⟨around, p, f, hk, hdecl, hf, hm, fun hpre => ?_, fun hpre => ?_⟩
    · have hheld := hx.2 hpre
      rw [hrun, hheld]
      exact ⟨rfl, rfl⟩
    · have hfree : m'.store.holds name.lexeme f = false := Bool.eq_false_iff.2 fun hheld => hx.1 hheld hpre
      rw [hrun, hfree]
      exact ⟨rfl, rfl⟩
  · obtain ⟨c, o, m, hc, hv, hn, rfl, hl⟩ := hsound.undefined hr
    exact ⟨c, o, m, hc, hv, rfl, hl, hsound.visits_undefined hc hv hn⟩

/-- Whether an assignment with the distance has the value of its right side at the moment. -/
def assignsAt (d : Nat) (c : Moment) : Bool :=
  match c.task with
  | .eval (.assign id _ e) =>
    match e.eval (invoke c.bound) c.machine with
    | (.value _, m) => m.bindings[id]? == some d
    | _ => false
  | _ => false

theorem exists_of_assignsAt {d : Nat} {c : Moment} (h : assignsAt d c = true) :
    ∃ n id name e m m' v, c = ⟨n, .eval (.assign id name e), m⟩ ∧ e.eval (invoke n) m = (.value v, m') ∧
      m'.bindings[id]? = some d := by
  obtain ⟨n, task, m⟩ := c
  unfold assignsAt at h
  dsimp only at h
  split at h
  · split at h
    · next he => exact ⟨n, _, _, _, m, _, _, rfl, he, by simpa using h⟩
    · cases h
  · cases h

/-- From a block to a variable of the block around it. -/
theorem assignment_writes_in_block : ∃ n id name e m m' v,
    ((start .unlimited fun _ => .ofNat 0).after []).ComesTo ⟨9, "{ var a = 1; { a = 2; } }"⟩
      ⟨n, .eval (.assign id name e), m⟩ ∧ e.eval (invoke n) m = (.value v, m') ∧ m'.bindings[id]? = some 1 ∧
      (start .unlimited fun _ => .ofNat 0).Writes ([] ++ [⟨9, "{ var a = 1; { a = 2; } }"⟩]) n id 1 name e m m' v := by
  obtain ⟨c, hc, ht⟩ := exists_comesTo (s := (start .unlimited fun _ => .ofNat 0).after [])
    (t := ⟨9, "{ var a = 1; { a = 2; } }"⟩) (by decide +kernel) [0, 0, 1, 0, 0, 0, 0]
    (show Option.any (assignsAt 1) _ = true by decide +kernel)
  obtain ⟨n, id, name, e, m, m', v, rfl, he, hd⟩ := exists_of_assignsAt ht
  exact ⟨n, id, name, e, m, m', v, hc, he, hd,
    (assignment_writes_unless_premature _ _ _ _).1 _ _ _ _ _ _ _ _ hc he hd⟩

/-- Whether an assignment with the distance finds its name undefined at the moment. -/
def failsAt (d : Nat) (c : Moment) : Bool :=
  match c.task with
  | .eval (.assign id name e) =>
    match (Expr.assign id name e).eval (invoke c.bound) c.machine with
    | (.failed f, _) => decide (c.machine.bindings[id]? = some d ∧ f = Store.undefined name)
    | _ => false
  | _ => false

theorem exists_of_failsAt {d : Nat} {c : Moment} (h : failsAt d c = true) :
    ∃ n id name e m m', c = ⟨n, .eval (.assign id name e), m⟩ ∧ m.bindings[id]? = some d ∧
      (Expr.assign id name e).eval (invoke n) m = (.failed (Store.undefined name), m') := by
  obtain ⟨n, task, m⟩ := c
  unfold failsAt at h
  dsimp only at h
  split at h
  · split at h
    · next he =>
      obtain ⟨hd, rfl⟩ := of_decide_eq_true h
      exact ⟨n, _, _, _, m, _, rfl, hd, he⟩
    · cases h
  · cases h

/-- **A premature assignment is accepted, has a distance and fails.** -/
theorem premature_assignment_undefined : ∃ n id name e m m',
    (start .unlimited fun _ => .ofNat 0).ComesTo ⟨9, "{ var a = (a = 1); print a; }"⟩
      ⟨n, .eval (.assign id name e), m⟩ ∧ m.bindings[id]? = some 0 ∧
      (Expr.assign id name e).eval (invoke n) m = (.failed (Store.undefined name), m') ∧
      ((start .unlimited fun _ => .ofNat 0).run 9 "{ var a = (a = 1); print a; }").1.faults =
        [.run 1 (.undefinedVariable "a")] := by
  obtain ⟨c, hc, ht⟩ := exists_comesTo (s := start .unlimited fun _ => .ofNat 0)
    (t := ⟨9, "{ var a = (a = 1); print a; }"⟩) (by decide +kernel) [0, 0, 0, 0, 0]
    (show Option.any (failsAt 0) _ = true by decide +kernel)
  obtain ⟨n, id, name, e, m, m', rfl, hd, he⟩ := exists_of_failsAt ht
  exact ⟨n, id, name, e, m, m', hc, hd, he, by decide +kernel⟩

end Session
end Scriptlet
