import Mathlib
import Scriptlet.Proofs.Formation
import Scriptlet.Proofs.Preservation

/-!
# Binding and running agree

Over a whole session: the table has for every occurrence in an accepted text the distance to the scope that declares
its name (`TableFits`), and the frames fit the scopes when a text has run, however it ended (`session_sound`).  So the
distance leads from the current frame to the frame of that very scope.
-/
namespace Scriptlet

/-! ## Accepted texts -/

/-- What is known of a text that is accepted and whose nodes are numbered from `fresh`. -/
structure Analysis.Good (a : Analysis) (fresh : Nat) : Prop where
  proper : Stmt.ProperAll a.statements
  numbered : Numbered fresh (idsOf ((programPlaces a.statements).map Prod.snd)) a.fresh
  entries : a.entries = (programPlaces a.statements).filterMap ScopedOccurrence.entry?
  reads : ∀ p ∈ programPlaces a.statements, p.2.assigns = false → ¬ p.1.OwnInitializer p.2.name.lexeme
  settled : ∀ p ∈ programPlaces a.statements, p.1.Settled

theorem statements_analyze (fresh : Nat) (source : String) :
    (analyze fresh source).statements = (readSource fresh source).statements := by simp only [analyze]

theorem statements_readSource (fresh : Nat) (source : String) :
    (readSource fresh source).statements = (parse fresh (tokensOf (scan source))).statements := by
  simp only [readSource]

theorem analyze_fresh (fresh : Nat) (source : String) :
    (analyze fresh source).fresh = (parse fresh (tokensOf (scan source))).fresh := by
  simp only [analyze, readSource]

theorem fresh_le_analyze (fresh : Nat) (source : String) : fresh ≤ (analyze fresh source).fresh := by
  rw [analyze_fresh]
  exact fresh_le_parse fresh _

/-- **An accepted text is good.** -/
theorem analyze_good {fresh : Nat} {source : String} (h : (analyze fresh source).faults = []) :
    (analyze fresh source).Good fresh := by
  simp only [analyze, readSource, List.append_eq_nil_iff] at h ⊢
  obtain ⟨-, hr⟩ := h
  obtain ⟨hformed, hnumbered⟩ := parse_shaped fresh (tokensOf (scan source))
  generalize parse fresh (tokensOf (scan source)) = parsed at *
  have hproper := hformed.proper
  have hd := resolve_describes hproper
  have hs := Stmt.settled_placesAll _ hproper none 0 fun g hg => by cases hg
  refine ⟨hproper, ?_, hd.entries, hd.sound hr, hs⟩
  rw [programPlaces, Stmt.placesAll_snd]
  exact hnumbered

/-- The walk over the statements made the entries, and found no fault. -/
theorem analyze_resolved {fresh : Nat} {source : String} (h : (analyze fresh source).faults = []) :
    (resolve (analyze fresh source).statements).entries = (analyze fresh source).entries ∧
      (resolve (analyze fresh source).statements).faults = [] := by
  simp only [analyze, List.append_eq_nil_iff] at h ⊢
  exact ⟨trivial, h.2⟩

/-! ## The table -/

/-- What the table knows: the distances of the places, and nothing from the number `fresh` on. -/
structure TableFits (places : List ScopedOccurrence) (table : Bindings) (fresh : Nat) : Prop where
  distance : ∀ p ∈ places, table[p.2.id]? = p.1.distance? p.2.name.lexeme
  reads : ∀ p ∈ places, p.2.assigns = false → ¬ p.1.OwnInitializer p.2.name.lexeme
  settled : ∀ p ∈ places, p.1.Settled
  nodup : (idsOf (places.map Prod.snd)).Nodup
  below : ∀ p ∈ places, p.2.id < fresh
  above : ∀ k, fresh ≤ k → table[k]? = none

theorem mem_ids_of_entry {places : List ScopedOccurrence} {k d : Nat}
    (h : (k, d) ∈ places.filterMap ScopedOccurrence.entry?) :
    ∃ p ∈ places, p.2.id = k ∧ p.1.distance? p.2.name.lexeme = some d := by
  obtain ⟨p, hp, he⟩ := List.mem_filterMap.1 h
  obtain ⟨d', hd, he⟩ := Option.map_eq_some_iff.1 he
  cases he
  exact ⟨p, hp, rfl, hd⟩

theorem eq_of_id {places : List ScopedOccurrence} (h : (idsOf (places.map Prod.snd)).Nodup) {p q : ScopedOccurrence}
    (hp : p ∈ places) (hq : q ∈ places) (he : p.2.id = q.2.id) : p = q := by
  rw [idsOf, List.map_map] at h
  exact List.inj_on_of_nodup_map h hp hq he

/-- The entries of places stand under the numbers of the places. -/
theorem Bindings.add_of_not_mem {table : Bindings} {places : List ScopedOccurrence} {k : Nat}
    (h : ∀ p ∈ places, p.2.id ≠ k) : (table.add (places.filterMap ScopedOccurrence.entry?))[k]? = table[k]? := by
  refine Std.TreeMap.getElem?_insertMany_list_of_contains_eq_false ?_
  rw [← Bool.not_eq_true, List.contains_iff_mem]
  intro hk
  obtain ⟨⟨k', d⟩, hm, rfl⟩ := List.mem_map.1 hk
  obtain ⟨p, hp, he, -⟩ := mem_ids_of_entry hm
  exact h p hp he

theorem pairwise_entries {places : List ScopedOccurrence} (h : (idsOf (places.map Prod.snd)).Nodup) :
    (places.filterMap ScopedOccurrence.entry?).Pairwise fun a b => ¬ compare a.1 b.1 = .eq := by
  rw [List.pairwise_filterMap]
  rw [idsOf, List.map_map, List.Nodup, List.pairwise_map] at h
  refine h.imp fun {p q} hpq a ha b hb => ?_
  obtain ⟨_, -, rfl⟩ := Option.map_eq_some_iff.1 ha
  obtain ⟨_, -, rfl⟩ := Option.map_eq_some_iff.1 hb
  simpa [Nat.compare_eq_eq] using hpq

theorem Bindings.add_of_mem {table : Bindings} {places : List ScopedOccurrence}
    (h : (idsOf (places.map Prod.snd)).Nodup) {p : ScopedOccurrence} (hp : p ∈ places) (hn : table[p.2.id]? = none) :
    (table.add (places.filterMap ScopedOccurrence.entry?))[p.2.id]? = p.1.distance? p.2.name.lexeme := by
  cases hd : p.1.distance? p.2.name.lexeme with
  | some d =>
    refine Std.TreeMap.getElem?_insertMany_list_of_mem (Nat.compare_eq_eq.2 rfl) (pairwise_entries h) ?_
    exact List.mem_filterMap.2 ⟨p, hp, by rw [ScopedOccurrence.entry?, hd]; rfl⟩
  | none =>
    rw [← hn]
    refine Std.TreeMap.getElem?_insertMany_list_of_contains_eq_false ?_
    rw [← Bool.not_eq_true, List.contains_iff_mem]
    intro hk
    obtain ⟨⟨k', d⟩, hm, hk⟩ := List.mem_map.1 hk
    obtain ⟨q, hq, he, hd'⟩ := mem_ids_of_entry hm
    rw [eq_of_id h hp hq (hk.symm.trans he.symm), hd'] at hd
    cases hd

/-- A text that is bound alone. -/
theorem Analysis.Good.distance {a : Analysis} {fresh : Nat} (h : a.Good fresh) : ∀ p ∈ programPlaces a.statements,
    (Bindings.add ∅ a.entries)[p.2.id]? = p.1.distance? p.2.name.lexeme := fun p hp => by
  rw [h.entries]
  exact Bindings.add_of_mem h.numbered.nodup hp Std.TreeMap.getElem?_emptyc

namespace TableFits

variable {places : List ScopedOccurrence} {table : Bindings} {fresh fresh' : Nat}

theorem mono (h : TableFits places table fresh) (hf : fresh ≤ fresh') : TableFits places table fresh' :=
  ⟨h.distance, h.reads, h.settled, h.nodup, fun p hp => Nat.lt_of_lt_of_le (h.below p hp) hf,
    fun k hk => h.above k (Nat.le_trans hf hk)⟩

/-- The entries of an accepted text come to those of the earlier ones. -/
theorem add (h : TableFits places table fresh) {a : Analysis} (ha : a.Good fresh) :
    TableFits (places ++ programPlaces a.statements) (table.add a.entries) a.fresh := by
  have hn := ha.numbered
  have hid : ∀ p ∈ programPlaces a.statements, fresh ≤ p.2.id ∧ p.2.id < a.fresh := fun p hp =>
    hn.mem _ (List.mem_map_of_mem (List.mem_map_of_mem hp))
  have hold : ∀ p ∈ places, ∀ q ∈ programPlaces a.statements, q.2.id ≠ p.2.id := fun p hp q hq => by
    have := h.below p hp
    have := hid q hq
    omega
  rw [ha.entries]
  refine ⟨fun p hp => ?_, fun p hp => ?_, fun p hp => ?_, ?_, fun p hp => ?_, fun k hk => ?_⟩
  · rcases List.mem_append.1 hp with hp | hp
    · rw [Bindings.add_of_not_mem (hold p hp), h.distance p hp]
    · exact Bindings.add_of_mem hn.nodup hp (h.above _ (hid p hp).1)
  · rcases List.mem_append.1 hp with hp | hp
    · exact h.reads p hp
    · exact ha.reads p hp
  · rcases List.mem_append.1 hp with hp | hp
    · exact h.settled p hp
    · exact ha.settled p hp
  · rw [List.map_append, idsOf_append]
    refine List.nodup_append.2 ⟨h.nodup, hn.nodup, fun i hi j hj => ?_⟩
    simp only [idsOf, List.map_map, List.mem_map] at hi hj
    obtain ⟨p, hp, rfl⟩ := hi
    obtain ⟨q, hq, rfl⟩ := hj
    exact (hold p hp q hq).symm
  · rcases List.mem_append.1 hp with hp | hp
    · exact Nat.lt_of_lt_of_le (h.below p hp) hn.le
    · exact (hid p hp).2
  · rw [Bindings.add_of_not_mem fun p hp => by have := hid p hp; omega]
    exact h.above k (Nat.le_trans hn.le hk)

end TableFits

/-! ## Sessions -/

namespace Session

/-- The places of the text, if it is accepted. -/
def textPlaces (s : Session) (t : Text) : List ScopedOccurrence :=
  if s.Accepts t.source then programPlaces (analyze s.fresh t.source).statements else []

/-- The places of the accepted texts. -/
def places (s : Session) : List Text → List ScopedOccurrence
  | [] => []
  | t :: ts => s.textPlaces t ++ places (s.run t.bound t.source).2 ts

theorem places_snoc (t : Text) : ∀ (texts : List Text) (s : Session),
    s.places (texts ++ [t]) = s.places texts ++ (s.after texts).textPlaces t
  | [], s => by simp [places]
  | u :: us, s => by
    simp only [List.cons_append, places, places_snoc t us, List.append_assoc]
    rfl

/-- What has happened when the texts have been run. -/
def history (s : Session) (texts : List Text) : History where
  Happened := s.Happens texts
  Current c := ∃ earlier t, texts = earlier ++ [t] ∧ (s.after earlier).ComesTo t c
  Known p := p ∈ s.places texts
  happened := by
    rintro c ⟨earlier, t, ht, hc⟩
    exact ⟨earlier, t, [], ht, hc⟩
  enters := by
    rintro c c' ⟨earlier, t, ht, ha, hr⟩ he
    exact ⟨earlier, t, ht, ha, hr.tail he⟩

end Session

namespace History

/-- More has happened. -/
structure Le (H H' : History) : Prop where
  happened : ∀ c, H.Happened c → H'.Happened c
  known : ∀ p, H.Known p → H'.Known p

variable {H H' : History}

theorem Le.fine (h : H.Le H') {s : Store} {v : Value} (hv : H.Fine s v) : H'.Fine s v := by
  unfold Fine at *
  split
  · obtain ⟨around, ⟨fs, hc, hfs⟩, hp, hk⟩ := hv
    refine ⟨around, ⟨fs, hc, hfs.imp fun p f ⟨⟨c, hc, ho⟩, hx⟩ => ?_⟩, hp, fun p hp => h.known p (hk p hp)⟩
    exact ⟨⟨c, h.happened c hc, ho⟩, hx⟩
  · trivial

theorem Le.storeFits (h : H.Le H') {s : Store} (hs : H.StoreFits s) : H'.StoreFits s :=
  ⟨hs.globals, fun f c hc => h.fine (hs.fine f c hc)⟩

end History

theorem Session.history_le_snoc (s : Session) (texts : List Text) (t : Text) :
    (s.history texts).Le (s.history (texts ++ [t])) := by
  refine ⟨?_, fun p hp => ?_⟩
  · rintro c ⟨earlier, u, later, rfl, hc⟩
    exact ⟨earlier, u, later ++ [t], by simp, hc⟩
  · have hp : p ∈ s.places texts := hp
    change p ∈ s.places (texts ++ [t])
    rw [places_snoc]
    exact List.mem_append_left _ hp

/-- Frames and table fit what has happened, and the global frame is the current one. -/
structure Session.Sound (s : Session) (texts : List Text) : Prop where
  store : (s.history texts).StoreFits (s.after texts).machine.store
  here : (s.after texts).machine.here = Machine.globals
  table : TableFits (s.places texts) (s.after texts).machine.bindings (s.after texts).fresh
  flushable : (s.after texts).machine.sink.flushable = s.machine.sink.flushable

theorem start_sound (sink : Sink) (clock : Nat → Number) : (Session.start sink clock).Sound [] := by
  have hs : ((Session.start sink clock).history []).StoreFits (Store.empty.add none).2 := by
    refine ⟨rfl, fun f c hc => ?_⟩
    cases Store.mem_cells_add hc
  refine ⟨hs.define Machine.globals _ (v := .callable (.native 0 ⟨.clock, 0⟩)) trivial, rfl, ?_, rfl⟩
  exact ⟨by simp [Session.places], by simp [Session.places], by simp [Session.places], by simp [Session.places],
    by simp [Session.places], fun k _ => Std.TreeMap.getElem?_emptyc⟩

namespace Session

theorem interpret_snd (bound : Nat) (ss : List Stmt) (m : Machine) :
    (interpret bound ss m).2 = (Stmt.execAll (invoke bound) bound ss m).2 := by
  unfold interpret
  dsimp only
  split <;> rfl

/-- How the run of an analyzed text ends. -/
def ended (s : Session) (bound : Nat) (a : Analysis) : Outcome × Session :=
  ((interpret bound a.statements (s.starting bound a).machine).1,
    ⟨(interpret bound a.statements (s.starting bound a).machine).2, a.fresh⟩)

theorem fresh_ended (s : Session) (bound : Nat) (a : Analysis) : (s.ended bound a).2.fresh = a.fresh := rfl

theorem run_accepted {s : Session} {t : Text} (h : s.Accepts t.source) :
    s.run t.bound t.source = s.ended t.bound (analyze s.fresh t.source) := by
  have h : (analyze s.fresh t.source).faults.isEmpty = true := List.isEmpty_iff.2 h
  simp only [run, h, if_true, ended, starting]

theorem run_rejected {s : Session} {t : Text} (h : ¬ s.Accepts t.source) : s.run t.bound t.source =
    (.staticFaults (analyze s.fresh t.source).faults, { s with fresh := (analyze s.fresh t.source).fresh }) := by
  have h : (analyze s.fresh t.source).faults.isEmpty = false := by
    rw [← Bool.not_eq_true, List.isEmpty_iff]
    exact h
  simp only [run, h, Bool.false_eq_true, if_false]

namespace Sound

variable {s : Session} {texts : List Text} {t : Text}

theorem places_accepted (ha : (s.after texts).Accepts t.source) : s.places (texts ++ [t]) =
    s.places texts ++ programPlaces (analyze (s.after texts).fresh t.source).statements := by
  rw [places_snoc, textPlaces, if_pos ha]

/-- The frames fit the scopes where an accepted text starts. -/
theorem starting (h : s.Sound texts) {a : Analysis} (ha : a.Good (s.after texts).fresh) (bound : Nat)
    (hp : ∀ p ∈ programPlaces a.statements, p ∈ s.places (texts ++ [t])) :
    Moment.Scoped (s.history (texts ++ [t])) ((s.after texts).starting bound a) := by
  refine ⟨(s.history_le_snoc texts t).storeFits h.store, none, 0, ?_, (fun g hg => by cases hg), ha.proper, hp⟩
  have hh : ((s.after texts).starting bound a).machine.here = Machine.globals := h.here
  rw [hh]
  exact h.store.globals

theorem beginning (h : s.Sound texts) (ha : (s.after texts).Accepts t.source) :
    Moment.Scoped (s.history (texts ++ [t])) ((s.after texts).beginning t) ∧
      (s.history (texts ++ [t])).Current ((s.after texts).beginning t) := by
  refine ⟨h.starting (analyze_good ha) t.bound fun p hp => ?_, texts, t, rfl, ha, .refl⟩
  rw [places_accepted ha]
  exact List.mem_append_right _ hp

theorem table_beginning (h : s.Sound texts) (ha : (s.after texts).Accepts t.source) :
    TableFits (s.places (texts ++ [t])) ((s.after texts).beginning t).machine.bindings
      (analyze (s.after texts).fresh t.source).fresh := by
  rw [places_accepted ha]
  exact h.table.add (analyze_good ha)

/-- Store, table and sink after the run of an analyzed text. -/
theorem ended (h : s.Sound texts) {a : Analysis} {bound : Nat} {H : History}
    (hf : ((s.after texts).starting bound a).Scoped H) (hh : H.Current ((s.after texts).starting bound a)) :
    H.StoreFits ((s.after texts).ended bound a).2.machine.store ∧
      ((s.after texts).ended bound a).2.machine.here = Machine.globals ∧
      ((s.after texts).ended bound a).2.machine.bindings = ((s.after texts).starting bound a).machine.bindings ∧
      ((s.after texts).ended bound a).2.machine.sink.flushable = s.machine.sink.flushable := by
  have hk := ((H.invokes bound).execAll _ hh hf).keeps
  unfold Session.ended
  rw [interpret_snd]
  exact ⟨hk.fits, hk.here.trans h.here, hk.bindings, hk.flushable.trans h.flushable⟩

theorem snoc (h : s.Sound texts) (t : Text) : s.Sound (texts ++ [t]) := by
  by_cases ha : (s.after texts).Accepts t.source
  · obtain ⟨hf, hh⟩ := h.beginning ha
    obtain ⟨hs, hg, hb, hfl⟩ := h.ended hf hh
    have ht := h.table_beginning ha
    refine ⟨?_, ?_, ?_, ?_⟩ <;> rw [after_snoc, run_accepted ha]
    · exact hs
    · exact hg
    · rw [hb, fresh_ended]
      exact ht
    · exact hfl
  · have hp : s.places (texts ++ [t]) = s.places texts := by
      rw [places_snoc, textPlaces, if_neg ha, List.append_nil]
    have ht := h.table.mono (fresh_le_analyze (s.after texts).fresh t.source)
    refine ⟨?_, ?_, ?_, ?_⟩ <;> simp only [after_snoc, run_rejected ha]
    · exact (s.history_le_snoc texts t).storeFits h.store
    · exact h.here
    · rw [hp]
      exact ht
    · exact h.flushable

/-- At every moment of the run of a text, the frames fit the scopes and the table fits the places. -/
theorem comesTo (h : s.Sound texts) {c : Moment} (hc : (s.after texts).ComesTo t c) :
    c.Scoped (s.history (texts ++ [t])) ∧ (s.history (texts ++ [t])).Current c ∧
      TableFits (s.places (texts ++ [t])) c.machine.bindings (analyze (s.after texts).fresh t.source).fresh := by
  obtain ⟨hf, hh⟩ := h.beginning hc.1
  obtain ⟨hf', hh', hb⟩ := hf.reaches hh hc.2
  refine ⟨hf', hh', ?_⟩
  rw [hb]
  exact h.table_beginning hc.1

end Sound

/-- **Frames and scopes fit after any texts**, whether they were rejected, failed or ended well. -/
theorem session_sound (sink : Sink) (clock : Nat → Number) (texts : List Text) : (start sink clock).Sound texts := by
  induction texts using List.reverseRecOn with
  | nil => exact start_sound sink clock
  | append_singleton texts t ih => exact ih.snoc t

end Session

end Scriptlet
