import Mathlib
import Scriptlet.Proofs.BareFrames

/-!
# Runs with and without the frames of bare blocks

A program runs in step with itself when the bare blocks make no frames, and ends alike (`Session.runBare_eq`).  Each
step keeps the machines related, with shades for the frames that are made (`Baring.lawful`).
-/
namespace Scriptlet

variable {B : Baring} {W W' : Shades}

/-! ## Places -/

namespace Surroundings

variable {bare : List Stmt → Bool} {around : Surroundings}

theorem pattern_cons (scope : LocalScope) (i : Nat) (outer : Surroundings) :
    pattern bare ((scope, i) :: outer) = scope.framed bare :: outer.pattern bare := rfl

theorem pattern_next (around : Surroundings) : around.next.pattern bare = around.pattern bare := by
  cases around <;> rfl

theorem pattern_after (around : Surroundings) (s : Stmt) : (around.after s).pattern bare = around.pattern bare := by
  unfold after
  split
  · rfl
  · exact pattern_next around

/-- A place where a statement declares has a frame of its own. -/
theorem pattern_of_declared (h : Undeclaring bare) {s : Stmt} {x : String} (hst : Stands around s)
    (hx : s.declared? = some x) : ∃ outer, around.pattern bare = true :: outer := by
  cases around with
  | nil => exact ⟨[], rfl⟩
  | cons p outer =>
    obtain ⟨scope, i⟩ := p
    refine ⟨pattern bare outer, ?_⟩
    rw [pattern_cons]
    cases scope with
    | function f => rfl
    | block body =>
      obtain ⟨s', hs', rfl | ⟨-, hn⟩⟩ := hst _ rfl
      · cases hb : bare body with
        | false => simp [LocalScope.framed, hb]
        | true => cases (h body hb s' (List.mem_of_getElem? hs')).symm.trans hx
      · cases hn.symm.trans hx

end Surroundings

/-- The frames around the statements of one list are the same. -/
theorem Ground.pattern_around (bare : List Stmt → Bool) (ground : Ground) (i j : Nat) :
    (ground.around i).pattern bare = (ground.around j).pattern bare := by
  cases ground with
  | none => rfl
  | some g => rfl

/-! ## Runs -/

namespace Baring

/-- The machines, with the current frames in step: the second stands for the first, and those around them are as the
place tells. -/
def coupling (B : Baring) : Coupling (.itself B.Known) where
  World := Shades
  stores := Store.Shaded B
  closures := .shaded B
  stands around W f f' := W f = some ⟨f', around.pattern B.bare⟩
  later _ := Shades.Le
  apart := Shades.Le
  fault := Eq
  left := B.scopes
  right := B.frames

/-- Names are declared in frames that have one of their own. -/
theorem define {around : Surroundings} {s₀ : Stmt} {x : String} (hst : Stands around s₀) (hx : s₀.declared? = some x)
    {s s' : Store} {f f' : FrameId} (hs : s.Shaded B W s') (hf : W f = some ⟨f', around.pattern B.bare⟩) {v v' : Value}
    (hv : v.Shaded B W v') : ∃ W₁ : Shades, W.Le W₁ ∧ (s.define f x v).Shaded B W₁ (s'.define f' x v') ∧
      W₁ f = some ⟨f', around.next.pattern B.bare⟩ := by
  obtain ⟨outer, hpattern⟩ := Surroundings.pattern_of_declared B.undeclaring hst hx
  refine ⟨W, .refl W, hs.define (Shades.own?_of_true (hf.trans (congrArg _ (congrArg _ hpattern)))) x hv, ?_⟩
  rw [Surroundings.pattern_next, hf]

/-- A frame is made for a scope, and the second machine has one too, or none if the scope is a bare block. -/
theorem admits {around : Surroundings} {scope : LocalScope} {s s' s₁' : Store} {f f' g' : FrameId}
    (hs : s.Shaded B W s') (hf : W f = some ⟨f', around.pattern B.bare⟩)
    (hk : s'.Opens ⟨f', around.pattern B.bare⟩ ⟨g', scope.framed B.bare :: around.pattern B.bare⟩ s₁') :
    B.coupling.Admits W ((scope, 0) :: around) (s.add (some f)).2 s₁' s.frames.size g' :=
  ⟨_, hs.add hf hk, W.opened_self .., fun _ hle => (hs.mirror.le_opened _).trans hle⟩

/-- **What the steps keep.**  A block makes a frame on both machines, or on the first alone if it is bare. -/
theorem lawful (B : Baring) : B.coupling.Lawful (.without B.bare) where
  later_refl _ W := Shades.Le.refl W
  later_trans h h' := Shades.Le.trans h h'
  later_of_apart h := h
  stands_of_apart h hf := h _ _ hf
  closures_of_later := by
    rintro _ W W' hle f frame f' frame' ⟨heq, around, hw, hp⟩
    exact ⟨heq, around, hle _ _ hw, hp⟩
  fault_at := by
    rintro around t _ rfl cause
    rfl
  fault_output _ _ := rfl
  lookUp := by
    rintro around o _ W m m' ⟨rfl, ho⟩ hm hh
    refine lookUp_paired (Machine.Shaded.holder? hm hh ho) rfl ?_
    intro f f' hown
    exact Cells.Paired.lookup (hm.store.cells f f' hown) biUnique_eq rfl
  assign := by
    rintro around o _ W m m' v v' ⟨rfl, ho⟩ hm hh hv
    obtain ⟨signal, signal', s, s', hr⟩ := assign_paired (V := Value.Shaded B W) (F := Eq) (S := Store.Shaded B W)
      (Machine.Shaded.holder? hm hh ho) rfl hm.store fun hown => hm.store.define hown _ hv
    exact ⟨W, signal, signal', s, s', Shades.Le.refl W, hr⟩
  declare := by
    rintro around _ t _ W s s' f f' v v' ⟨rfl, rfl, o, hst⟩ hs hf hv
    exact define hst rfl hs hf hv
  function := by
    rintro around _ g _ W s s' f f' ⟨rfl, rfl, hst, hp, hk⟩ hs hf id
    exact define hst rfl hs hf (.closure id ⟨rfl, around, hf, hp, hk⟩)
  next := by
    rintro _ _ W s s' f f' ⟨ground, i, t, ts, rfl, rfl, -⟩ hs hf
    refine ⟨W, Shades.Le.refl W, hs, ?_⟩
    have hf : W f = some ⟨f', ((ground.around i).after t).pattern B.bare⟩ := hf
    rwa [Surroundings.pattern_after, ground.pattern_around B.bare i (i + 1)] at hf
  framed := by
    rintro around _ ss _ W s s' f f' ⟨rfl, rfl, -⟩ hb hs hf
    have hframed : (LocalScope.block ss).framed B.bare = true := by
      rw [LocalScope.framed, show B.bare ss = false from hb]
      rfl
    exact admits hs hf (by rw [hframed]; exact .framed)
  bare := by
    rintro around _ ss _ W s s' f f' ⟨rfl, rfl, -⟩ hb hs hf
    have hframed : (LocalScope.block ss).framed B.bare = false := by
      rw [LocalScope.framed, show B.bare ss = true from hb]
      rfl
    exact admits hs hf (by rw [hframed]; exact .bare)
  call := by
    rintro g f _ f' W s s' vs vs' ⟨rfl, around, hf, hp, hk⟩ hs hvs -
    obtain ⟨q, hbody⟩ := Function.body_paired_itself hp hk
    let k : Shade := ⟨s'.frames.size, true :: around.pattern B.bare⟩
    have hle := hs.mirror.le_opened k
    have hself := W.opened_self s.frames.size k
    refine ⟨_, q, hbody, W.opened s.frames.size k, ?_, hself, fun W₂ hle₂ => hle.trans hle₂⟩
    have hd : ∀ {s₁ s₁' : Store} {t t' : Token} {v v' : Value}, s₁.Shaded B (W.opened s.frames.size k) s₁' → t = t' →
        v.Shaded B (W.opened s.frames.size k) v' →
          (s₁.define s.frames.size t.lexeme v).Shaded B (W.opened s.frames.size k)
            (s₁'.define s'.frames.size t'.lexeme v') := by
      rintro s₁ s₁' t _ v v' hs₁ rfl hv
      exact hs₁.define (Shades.own?_of_true hself) _ hv
    exact Store.boundIn_rel hd (List.forall₂_same.2 fun _ _ => rfl) (hvs.imp fun _ _ hv => Value.Shaded.le hv hle)
      (hs.add hf .framed)

end Baring

/-! ## Sessions -/

theorem Signal.Paired.outcome_eq {V : Value → Value → Prop} {α α' : Type} {R : α → α' → Prop} {signal : Signal α}
    {signal' : Signal α'} (h : signal.Paired V Eq R signal') : signal.outcome = signal'.outcome := by
  cases h with
  | failed h => rw [h]; rfl
  | _ => rfl

/-- A whole program, on machines that are in the global frame. -/
theorem shaded_interpret {m m' : Machine} (hm : m.Shaded B W m') (hh : m.here = Machine.globals)
    (hh' : m'.here = Machine.globals) {ss : List Stmt} (hp : Stmt.ProperAll ss)
    (hk : ∀ p ∈ programPlaces ss, B.Known p) (bound : Nat) :
    (interpretBy (.without B.bare) bound ss m').1 = (interpret bound ss m).1 ∧
      (interpret bound ss m).2.here = Machine.globals ∧
      (interpretBy (.without B.bare) bound ss m').2.here = Machine.globals ∧
      ∃ W₁, (interpret bound ss m).2.Shaded B W₁ (interpretBy (.without B.bare) bound ss m').2 := by
  have hstart : W m.here = some ⟨m'.here, Surroundings.pattern B.bare []⟩ := by
    rw [hh, hh']
    exact hm.store.mirror.globals
  obtain ⟨q, hss⟩ := program_paired_itself hp hk
  obtain ⟨W₁, -, he⟩ := B.lawful.run hss bound ⟨hm, hstart⟩
  rw [interpret_eq]
  refine ⟨?_, he.here.trans hh, he.here'.trans hh', W₁, he.machines⟩
  dsimp only [interpretBy]
  rw [he.machines.sink, he.signal.outcome_eq]

/-! The same cells are in step for more places, and with the tables that have their entries. -/

section

variable {B' : Baring} (hb : B'.bare = B.bare) (hk : ∀ p, B.Known p → B'.Known p)

include hb hk

theorem Value.Shaded.more {v v' : Value} (h : v.Shaded B W v') : v.Shaded B' W v' := by
  refine Value.Paired.imp h fun hf => ?_
  obtain ⟨heq, around, hw, hp, hp'⟩ := hf
  exact ⟨heq, around, hb ▸ hw, hp, fun p h => hk p (hp' p h)⟩

theorem Store.Shaded.more {s s' : Store} (h : s.Shaded B W s') : s.Shaded B' W s' :=
  ⟨h.mirror, fun f g hf => (h.cells f g hf).imp fun _ _ hc => ⟨hc.1, Value.Shaded.more hb hk hc.2⟩⟩

theorem Machine.Shaded.more {m m' : Machine} (h : m.Shaded B W m') :
    Machine.Shaded B' W { m with bindings := B'.scopes } { m' with bindings := B'.frames } :=
  ⟨h.store.more hb hk, rfl, rfl, h.sink, h.clock, h.ticks, h.fresh⟩

end

/-- The second table with the entries of a good text, each a distance in frames. -/
theorem Analysis.Good.frames {a : Analysis} {fresh : Nat} (ha : a.Good fresh) (bare : List Stmt → Bool)
    {table : Bindings} (above : ∀ k, fresh ≤ k → table[k]? = none) :
    let table' := table.add ((framedPlaces bare a.statements).filterMap ScopedOccurrence.entry?)
    (∀ k < fresh, table'[k]? = table[k]?) ∧ (∀ k, a.fresh ≤ k → table'[k]? = none) ∧
      ∀ p ∈ programPlaces a.statements, table'[p.2.id]? = (p.1.framed bare).distance? p.2.name.lexeme := by
  intro table'
  have hids : idsOf ((framedPlaces bare a.statements).map Prod.snd) =
      idsOf ((programPlaces a.statements).map Prod.snd) := by
    rw [framedPlaces, List.map_map]
    rfl
  have hid : ∀ q ∈ framedPlaces bare a.statements, fresh ≤ q.2.id ∧ q.2.id < a.fresh := fun q hq =>
    ha.numbered.mem _ (hids ▸ List.mem_map_of_mem (List.mem_map_of_mem hq))
  refine ⟨fun k hk => Bindings.add_of_not_mem fun q hq => ?_, fun k hk => ?_, fun p hp => ?_⟩
  · have := hid q hq
    omega
  · rw [← above k (Nat.le_trans ha.numbered.le hk)]
    exact Bindings.add_of_not_mem fun q hq => by have := hid q hq; omega
  · have hmem : (p.1.framed bare, p.2) ∈ framedPlaces bare a.statements := List.mem_map_of_mem hp
    exact Bindings.add_of_mem (hids ▸ ha.numbered.nodup) hmem (above _ (hid _ hmem).1)

/-- Before anything is run there is the global frame. -/
def Shades.start : Shades := fun f => if f = Machine.globals then some ⟨Machine.globals, [true]⟩ else none

theorem Shades.eq_of_start {f : FrameId} {k : Shade} (h : Shades.start f = some k) :
    f = Machine.globals ∧ k = ⟨Machine.globals, [true]⟩ := by
  unfold Shades.start at h
  split at h
  · next hf => exact ⟨hf, (Option.some.inj h).symm⟩
  · cases h

theorem Shades.eq_of_start_own? {f g : FrameId} (h : Shades.start.own? f = some g) :
    f = Machine.globals ∧ g = Machine.globals := by
  obtain ⟨k, hk, hg⟩ := Option.bind_eq_some_iff.1 h
  obtain ⟨rfl, rfl⟩ := eq_of_start hk
  exact ⟨rfl, (Option.some.inj hg).symm⟩

theorem Shades.start_mirror : Shades.start.Mirror (Store.empty.add none).2 (Store.empty.add none).2 where
  globals := rfl
  top := rfl
  bounded f k hf := by
    obtain ⟨rfl, rfl⟩ := eq_of_start hf
    exact ⟨Nat.one_pos, Nat.one_pos⟩
  around f g hg := by
    cases f with
    | zero =>
      obtain rfl := List.mem_singleton.1 hg
      exact Nat.one_pos
    | succ f => cases hg
  pattern f k hf := by
    obtain ⟨rfl, rfl⟩ := eq_of_start hf
    rfl
  chain f k hf := by
    obtain ⟨rfl, rfl⟩ := eq_of_start hf
    rfl
  apart f f' g hf hf' := (eq_of_start_own? hf).1.trans (eq_of_start_own? hf').1.symm

theorem Store.shaded_start (B : Baring) (sink : Sink) (clock : Nat → Number) :
    (Machine.start sink clock).store.Shaded B .start (Machine.start sink clock).store := by
  have hempty : ∀ f, (Store.empty.add none).2.cells f = [] := fun f => by
    rw [Store.cells_add]
    rfl
  have hbare : (Store.empty.add none).2.Shaded B .start (Store.empty.add none).2 :=
    ⟨Shades.start_mirror, fun f g _ => by rw [hempty, hempty]; exact .nil⟩
  exact hbare.define (f := Machine.globals) (g := Machine.globals) rfl "clock" (.same rfl)

namespace Session

/-- Sessions in step, when the places of accepted texts are known: the machines are in the global frame, and the second
table has nothing for the nodes to come. -/
structure Shaded (B : Baring) (W : Shades) (s s' : Session) : Prop where
  machine : s.machine.Shaded B W s'.machine
  here : s.machine.here = Machine.globals
  here' : s'.machine.here = Machine.globals
  fresh : s'.fresh = s.fresh
  above : ∀ k, s.fresh ≤ k → B.frames[k]? = none

variable {bare : List Stmt → Bool}

theorem shaded_start (B : Baring) (hl : B.scopes = ∅) (hr : B.frames = ∅) (sink : Sink) (clock : Nat → Number) :
    (start sink clock).Shaded B .start (start sink clock) where
  machine := ⟨Store.shaded_start B sink clock, hl.symm, hr.symm, rfl, rfl, rfl, rfl⟩
  here := rfl
  here' := rfl
  fresh := rfl
  above k _ := by
    rw [hr]
    exact Std.TreeMap.getElem?_emptyc

theorem afterBare_nil (s : Session) : s.afterBare bare [] = s := rfl

theorem afterBare_snoc (s : Session) (texts : List Text) (t : Text) :
    s.afterBare bare (texts ++ [t]) = ((s.afterBare bare texts).runBare bare t.bound t.source).2 := by
  simp [afterBare]

/-- How the run of an analyzed text ends without the frames of the bare blocks. -/
def endedBare (bare : List Stmt → Bool) (s : Session) (bound : Nat) (a : Analysis) : Outcome × Session :=
  let entries := (framedPlaces bare a.statements).filterMap ScopedOccurrence.entry?
  let ended := interpretBy (.without bare) bound a.statements
    { s.machine with bindings := s.machine.bindings.add entries }
  (ended.1, ⟨ended.2, a.fresh⟩)

namespace Shaded

variable {s s' : Session} {places : List ScopedOccurrence}

theorem runBare_accepted (h : s.Shaded B W s') {t : Text} (ha : s.Accepts t.source) :
    s'.runBare bare t.bound t.source = s'.endedBare bare t.bound (analyze s.fresh t.source) := by
  have ha : (analyze s.fresh t.source).faults.isEmpty = true := List.isEmpty_iff.2 ha
  rw [runBare, h.fresh]
  simp only [ha, if_true, endedBare]

theorem runBare_rejected (h : s.Shaded B W s') {t : Text} (ha : ¬ s.Accepts t.source) :
    s'.runBare bare t.bound t.source =
    (.staticFaults (analyze s.fresh t.source).faults, { s' with fresh := (analyze s.fresh t.source).fresh }) := by
  have ha : (analyze s.fresh t.source).faults.isEmpty = false := by
    rw [← Bool.not_eq_true, List.isEmpty_iff]
    exact ha
  rw [runBare, h.fresh]
  simp only [ha, Bool.false_eq_true, if_false]

/-- **A good text runs in step**, and its places come to those that are known. -/
theorem ended (h : s.Shaded B W s') (hk : ∀ p, B.Known p ↔ p ∈ places)
    (ht : TableFits places s.machine.bindings s.fresh) {a : Analysis} (ha : a.Good s.fresh) (bound : Nat) :
    (s'.endedBare B.bare bound a).1 = (s.ended bound a).1 ∧
      ∃ (B' : Baring) (W' : Shades), B'.bare = B.bare ∧ (∀ p, B'.Known p ↔ p ∈ places ++ programPlaces a.statements) ∧
        (s.ended bound a).2.Shaded B' W' (s'.endedBare B.bare bound a).2 := by
  have hscopes := (ht.add ha).distance
  obtain ⟨hold, habove, hnew⟩ := ha.frames B.bare h.above
  let B' : Baring := {
    bare := B.bare
    undeclaring := B.undeclaring
    Known := (· ∈ places ++ programPlaces a.statements)
    scopes := s.machine.bindings.add a.entries
    frames := B.frames.add ((framedPlaces B.bare a.statements).filterMap ScopedOccurrence.entry?)
    tables := fun p hp => by
      refine ⟨hscopes p hp, ?_⟩
      rcases List.mem_append.1 hp with hp | hp
      · rw [hold _ (ht.below p hp)]
        exact (B.tables p ((hk p).2 hp)).2
      · exact hnew p hp }
  have hknown : ∀ p, B.Known p → B'.Known p := fun p hp => List.mem_append_left _ ((hk p).1 hp)
  have hstart := Machine.Shaded.more (show B'.bare = B.bare from rfl) hknown h.machine
  obtain ⟨ho, hhere, hhere', W', hm⟩ := shaded_interpret hstart h.here h.here' ha.proper
    (fun p hp => List.mem_append_right _ hp) bound
  unfold endedBare
  rw [h.machine.right]
  exact ⟨ho, B', W', rfl, fun _ => Iff.rfl, hm, hhere, hhere', rfl, habove⟩

/-- A text more, whatever it is. -/
theorem run (h : s.Shaded B W s') (hk : ∀ p, B.Known p ↔ p ∈ places)
    (ht : TableFits places s.machine.bindings s.fresh) (t : Text) :
    (s'.runBare B.bare t.bound t.source).1 = (s.run t.bound t.source).1 ∧
      ∃ (B' : Baring) (W' : Shades), B'.bare = B.bare ∧ (∀ p, B'.Known p ↔ p ∈ places ++ s.textPlaces t) ∧
        (s.run t.bound t.source).2.Shaded B' W' (s'.runBare B.bare t.bound t.source).2 := by
  by_cases ha : s.Accepts t.source
  · rw [run_accepted ha, h.runBare_accepted ha, textPlaces, if_pos ha]
    exact h.ended hk ht (analyze_good ha) t.bound
  · have hle := fresh_le_analyze s.fresh t.source
    rw [run_rejected ha, h.runBare_rejected ha, textPlaces, if_neg ha, List.append_nil]
    generalize analyze s.fresh t.source = a at hle
    exact ⟨rfl, B, W, rfl, hk, h.machine, h.here, h.here', rfl, fun k hlt => h.above k (Nat.le_trans hle hlt)⟩

end Shaded

/-- **Sessions with and without the frames of bare blocks are in step**, after any texts. -/
theorem shaded_after (h : Undeclaring bare) (sink : Sink) (clock : Nat → Number) (texts : List Text) :
    ∃ (B : Baring) (W : Shades), B.bare = bare ∧ (∀ p, B.Known p ↔ p ∈ (start sink clock).places texts) ∧
      ((start sink clock).after texts).Shaded B W ((start sink clock).afterBare bare texts) := by
  induction texts using List.reverseRecOn with
  | nil =>
    let B : Baring := ⟨bare, h, (· ∈ []), ∅, ∅, by simp⟩
    rw [after_nil, afterBare_nil]
    exact ⟨B, .start, rfl, fun _ => Iff.rfl, shaded_start B rfl rfl sink clock⟩
  | append_singleton texts t ih =>
    obtain ⟨B, W, rfl, hk, hs⟩ := ih
    rw [after_snoc, afterBare_snoc, places_snoc]
    exact (hs.run hk (session_sound sink clock texts).table t).2

/-- **Blocks that declare nothing need no frames.**  Whatever was run before, a text has the same outcome and leaves
the same bytes when such blocks run in the frames around them, and distances count the frames that are left. -/
theorem runBare_eq (h : Undeclaring bare) (sink : Sink) (clock : Nat → Number) (texts : List Text) (t : Text) :
    let ran := ((start sink clock).after texts).run t.bound t.source
    let ran' := ((start sink clock).afterBare bare texts).runBare bare t.bound t.source
    ran'.1 = ran.1 ∧ ran'.2.machine.sink = ran.2.machine.sink := by
  obtain ⟨B, W, rfl, hk, hs⟩ := shaded_after h sink clock texts
  obtain ⟨ho, B', W', -, -, hs'⟩ := hs.run hk (session_sound sink clock texts).table t
  exact ⟨ho, hs'.machine.sink.symm⟩

end Session

end Scriptlet
