import Mathlib
import Scriptlet.Proofs.Grammar

/-!
# Readings without a fault

A rule of the parser reads *cleanly* when it gives a value and notes nothing.  Since a rule only adds to what has been
noted (`Grows`), a sequence of rules reads cleanly exactly when each of them does (`clean_bind`), so what a rule reads
cleanly can be told from what its parts do.
-/
namespace Scriptlet

/-- The cursor with other tokens to come and another next number. -/
def Cursor.moved (c : Cursor) (rest : List Token) (fresh : Nat) : Cursor := { c with rest, fresh }

namespace Cursor

@[simp] theorem moved_rest (c : Cursor) (r : List Token) (k : Nat) : (c.moved r k).rest = r := rfl

@[simp] theorem moved_fresh (c : Cursor) (r : List Token) (k : Nat) : (c.moved r k).fresh = k := rfl

@[simp] theorem moved_faults (c : Cursor) (r : List Token) (k : Nat) : (c.moved r k).faults = c.faults := rfl

@[simp] theorem moved_moved (c : Cursor) (r r' : List Token) (k k' : Nat) :
    (c.moved r k).moved r' k' = c.moved r' k' := rfl

@[simp] theorem moved_self (c : Cursor) : c.moved c.rest c.fresh = c := rfl

theorem sees_iff (c : Cursor) (kind : Kind) : c.sees kind = true ↔ ∃ t ∈ c.rest.head?, t.kind = kind := by
  unfold sees
  cases c.rest.head? <;> simp

end Cursor

namespace Parse

variable {α β : Type}

theorem bind_def (p : Parse α) (f : α → Parse β) (c : Cursor) :
    (p >>= f) c = match p c with
      | (some a, c) => f a c
      | (none, c) => (none, c) := rfl

theorem pure_def (a : α) (c : Cursor) : (pure a : Parse α) c = (some a, c) := rfl

theorem map_def (f : α → β) (p : Parse α) : f <$> p = p >>= fun a => pure (f a) := rfl

theorem bind_assoc {γ : Type} (p : Parse α) (f : α → Parse β) (g : β → Parse γ) :
    p >>= f >>= g = p >>= fun a => f a >>= g := by
  funext c
  simp only [bind_def]
  rcases p c with ⟨_ | a, c⟩ <;> rfl

theorem pure_bind (a : α) (f : α → Parse β) : (pure a : Parse α) >>= f = f a := rfl

theorem bind_pure (p : Parse α) : p >>= pure = p := by
  funext c
  rw [bind_def]
  rcases p c with ⟨_ | a, c⟩ <;> rfl

/-! ## Faults and numbers are only added -/

/-- The rule only adds to what has been noted, and does add to it when it gives up; it takes no number twice. -/
structure Grows (p : Parse α) : Prop where
  notes : ∀ c, ∃ fs, (p c).2.faults = c.faults ++ fs ∧ ((p c).1 = none → fs ≠ [])
  numbers : ∀ c, c.fresh ≤ (p c).2.fresh

/-- A rule that notes nothing. -/
theorem grows_of_faults {p : Parse α} (h : ∀ c, (p c).2.faults = c.faults) (hs : ∀ c, (p c).1 ≠ none)
    (hn : ∀ c, c.fresh ≤ (p c).2.fresh) : Grows p :=
  ⟨fun c => ⟨[], by simp [h c], fun hn => absurd hn (hs c)⟩, hn⟩

theorem grows_pure (a : α) : Grows (pure a : Parse α) :=
  grows_of_faults (fun _ => rfl) (fun _ => by simp [pure_def]) fun _ => Nat.le_refl _

theorem grows_peek : Grows peek := grows_of_faults (fun _ => rfl) (fun _ => by simp [peek]) fun _ => Nat.le_refl _

theorem grows_sees (kind : Kind) : Grows (sees kind) :=
  grows_of_faults (fun _ => rfl) (fun _ => by simp [sees]) fun _ => Nat.le_refl _

theorem grows_atEnd : Grows atEnd := grows_of_faults (fun _ => rfl) (fun _ => by simp [atEnd]) fun _ => Nat.le_refl _

theorem grows_fresh : Grows fresh :=
  grows_of_faults (fun _ => rfl) (fun _ => by simp [fresh]) fun c => Nat.le_succ c.fresh

theorem take?_cases (p : Kind → Bool) (c : Cursor) :
    (∃ t ts, take? p c = (some (some t), { c with rest := ts })) ∨ take? p c = (some none, c) := by
  unfold take?
  split
  · split
    · exact .inl ⟨_, _, rfl⟩
    · exact .inr rfl
  · exact .inr rfl

theorem grows_take? (p : Kind → Bool) : Grows (take? p) := by
  refine grows_of_faults (fun c => ?_) (fun c => ?_) (fun c => ?_) <;>
    rcases take?_cases p c with ⟨t, ts, h⟩ | h <;> simp [h]

theorem grows_fail (what : String) : Grows (fail what : Parse α) :=
  ⟨fun c => ⟨_, rfl, fun _ => by simp⟩, fun _ => Nat.le_refl _⟩

theorem grows_note (t : Token) (cause : Cause) : Grows (note t cause) :=
  ⟨fun c => ⟨_, rfl, fun h => by simp [note] at h⟩, fun _ => Nat.le_refl _⟩

theorem Grows.bind {p : Parse α} {f : α → Parse β} (hp : Grows p) (hf : ∀ a, Grows (f a)) : Grows (p >>= f) := by
  refine ⟨fun c => ?_, fun c => ?_⟩
  · obtain ⟨fs, h, hn⟩ := hp.notes c
    rw [bind_def]
    rcases hpc : p c with ⟨_ | a, c₁⟩
    · rw [hpc] at h hn
      exact ⟨fs, h, fun _ => hn rfl⟩
    · rw [hpc] at h
      obtain ⟨gs, h', hn'⟩ := (hf a).notes c₁
      refine ⟨fs ++ gs, by rw [h', h, List.append_assoc], fun h0 => ?_⟩
      have hg := hn' h0
      simp [hg]
  · have h := hp.numbers c
    rw [bind_def]
    rcases hpc : p c with ⟨_ | a, c₁⟩
    · rw [hpc] at h
      exact h
    · rw [hpc] at h
      exact Nat.le_trans h ((hf a).numbers c₁)

theorem Grows.map {p : Parse α} (f : α → β) (hp : Grows p) : Grows (f <$> p) := hp.bind fun _ => grows_pure _

theorem Grows.ite {p q : Parse α} (b : Prop) [Decidable b] (hp : Grows p) (hq : Grows q) :
    Grows (if b then p else q) := by
  split
  · exact hp
  · exact hq

theorem grows_accept (kind : Kind) : Grows (accept kind) := (grows_take? _).bind fun _ => grows_pure _

theorem grows_expect (kind : Kind) (what : String) : Grows (expect kind what) := by
  refine (grows_take? _).bind fun t => ?_
  cases t with
  | none => exact grows_fail what
  | some t => exact grows_pure t

theorem grows_recovering {p : Parse α} (hp : Grows p) : Grows (recovering p) := by
  refine ⟨fun c => ?_, fun c => ?_⟩
  · obtain ⟨fs, h, -⟩ := hp.notes c
    refine ⟨fs, ?_, fun hn => ?_⟩
    · unfold recovering
      split <;> simp_all
    · unfold recovering at hn
      split at hn <;> simp at hn
  · have h := hp.numbers c
    unfold recovering
    split <;> simp_all

/-! ## Clean readings -/

/-- The rule reads `a` and comes from `c` to `c'` without a fault. -/
def Clean (p : Parse α) (c : Cursor) (a : α) (c' : Cursor) : Prop := p c = (some a, c') ∧ c'.faults = c.faults

@[simp] theorem clean_pure {a b : α} {c c' : Cursor} : Clean (pure a : Parse α) c b c' ↔ b = a ∧ c' = c := by
  unfold Clean
  rw [pure_def]
  constructor
  · rintro ⟨h, -⟩
    cases h
    exact ⟨rfl, rfl⟩
  · rintro ⟨rfl, rfl⟩
    exact ⟨rfl, rfl⟩

/-- **A sequence reads cleanly exactly when its parts do.** -/
theorem clean_bind {p : Parse α} {f : α → Parse β} (hp : Grows p) (hf : ∀ a, Grows (f a)) {c c' : Cursor} {b : β} :
    Clean (p >>= f) c b c' ↔ ∃ a c₁, Clean p c a c₁ ∧ Clean (f a) c₁ b c' := by
  unfold Clean
  rw [bind_def]
  constructor
  · rintro ⟨h, hfs⟩
    obtain ⟨fs, h₁, -⟩ := hp.notes c
    rcases hpc : p c with ⟨_ | a, c₁⟩
    · rw [hpc] at h
      simp at h
    · rw [hpc] at h h₁
      obtain ⟨gs, h₂, -⟩ := (hf a).notes c₁
      simp only at h h₁
      rw [h] at h₂
      -- nothing was noted over both parts, so nothing by either
      have hnil : fs ++ gs = [] := by
        have : c.faults ++ (fs ++ gs) = c.faults ++ [] := by
          rw [← List.append_assoc, ← h₁, ← h₂, List.append_nil]
          exact hfs
        exact List.append_cancel_left this
      obtain ⟨rfl, rfl⟩ := List.append_eq_nil_iff.1 hnil
      rw [List.append_nil] at h₁
      exact ⟨a, c₁, ⟨rfl, h₁⟩, h, by rw [hfs, h₁]⟩
  · rintro ⟨a, c₁, ⟨h₁, e₁⟩, h₂, e₂⟩
    rw [h₁]
    exact ⟨h₂, e₂.trans e₁⟩

@[simp] theorem not_clean_fail {what : String} {c c' : Cursor} {a : α} : ¬ Clean (fail what : Parse α) c a c' := by
  rintro ⟨h, -⟩
  simp [fail] at h

@[simp] theorem not_clean_note {t : Token} {cause : Cause} {c c' : Cursor} {u : Unit} :
    ¬ Clean (note t cause) c u c' := by
  rintro ⟨h, hf⟩
  simp only [note, Prod.mk.injEq, true_and] at h
  rw [← h] at hf
  simp [Cursor.note] at hf

@[simp] theorem clean_sees {kind : Kind} {c c' : Cursor} {b : Bool} :
    Clean (sees kind) c b c' ↔ b = c.sees kind ∧ c' = c := by
  simp only [Clean, sees, Prod.mk.injEq, Option.some.injEq]
  constructor
  · rintro ⟨⟨rfl, rfl⟩, -⟩
    exact ⟨rfl, rfl⟩
  · rintro ⟨rfl, rfl⟩
    exact ⟨⟨rfl, rfl⟩, rfl⟩

@[simp] theorem clean_atEnd {c c' : Cursor} {b : Bool} : Clean atEnd c b c' ↔ b = c.rest.isEmpty ∧ c' = c := by
  simp only [Clean, atEnd, Prod.mk.injEq, Option.some.injEq]
  constructor
  · rintro ⟨⟨rfl, rfl⟩, -⟩
    exact ⟨rfl, rfl⟩
  · rintro ⟨rfl, rfl⟩
    exact ⟨⟨rfl, rfl⟩, rfl⟩

@[simp] theorem clean_fresh {c c' : Cursor} {k : Nat} :
    Clean fresh c k c' ↔ k = c.fresh ∧ c' = c.moved c.rest (c.fresh + 1) := by
  simp only [Clean, fresh, Prod.mk.injEq, Option.some.injEq]
  constructor
  · rintro ⟨⟨rfl, rfl⟩, -⟩
    exact ⟨rfl, rfl⟩
  · rintro ⟨rfl, rfl⟩
    exact ⟨⟨rfl, rfl⟩, rfl⟩

/-- No token of such a kind comes next. -/
def Without (p : Kind → Bool) (ts : List Token) : Prop := ∀ t ∈ ts.head?, p t.kind = false

theorem without_nil (p : Kind → Bool) : Without p [] := by
  intro t ht
  cases ht

@[simp] theorem without_cons {p : Kind → Bool} {t : Token} {ts : List Token} :
    Without p (t :: ts) ↔ p t.kind = false := by
  simp [Without]

theorem clean_take? {p : Kind → Bool} {c c' : Cursor} {o : Option Token} :
    Clean (take? p) c o c' ↔
      (∃ (t : Grammar.OneOf p) (ts : List Token), c.rest = t.1 :: ts ∧ o = some t.1 ∧ c' = c.moved ts c.fresh) ∨
        (Without p c.rest ∧ o = none ∧ c' = c) := by
  unfold Clean take?
  cases hr : c.rest with
  | nil =>
    simp only [Prod.mk.injEq, Option.some.injEq]
    constructor
    · rintro ⟨⟨rfl, rfl⟩, -⟩
      exact .inr ⟨without_nil p, rfl, rfl⟩
    · rintro (⟨t, ts, h, -⟩ | ⟨-, rfl, rfl⟩)
      · cases h
      · exact ⟨⟨rfl, rfl⟩, rfl⟩
  | cons t ts =>
    by_cases hp : p t.kind = true
    · simp only [hp, if_true, Prod.mk.injEq, Option.some.injEq]
      constructor
      · rintro ⟨⟨rfl, rfl⟩, -⟩
        exact .inl ⟨⟨t, hp⟩, ts, rfl, rfl, rfl⟩
      · rintro (⟨u, us, h, rfl, rfl⟩ | ⟨h, -, -⟩)
        · simp only [List.cons.injEq] at h
          obtain ⟨rfl, rfl⟩ := h
          exact ⟨⟨rfl, rfl⟩, rfl⟩
        · rw [without_cons, hp] at h
          cases h
    · simp only [hp, Bool.false_eq_true, if_false, Prod.mk.injEq, Option.some.injEq]
      constructor
      · rintro ⟨⟨rfl, rfl⟩, -⟩
        exact .inr ⟨without_cons.2 (by simpa using hp), rfl, rfl⟩
      · rintro (⟨u, us, h, -, -⟩ | ⟨-, rfl, rfl⟩)
        · simp only [List.cons.injEq] at h
          obtain ⟨rfl, -⟩ := h
          exact absurd u.2 hp
        · exact ⟨⟨rfl, rfl⟩, rfl⟩

/-! A step that notes nothing when it succeeds needs nothing of what follows. -/

theorem clean_bind_of_eq {p : Parse α} {f : α → Parse β} {a : α} {c c₁ c' : Cursor} {b : β} (h : Clean p c a c₁) :
    Clean (p >>= f) c b c' ↔ Clean (f a) c₁ b c' := by
  unfold Clean at *
  rw [bind_def, h.1, h.2]

theorem clean_sees_bind {kind : Kind} {f : Bool → Parse β} {c c' : Cursor} {b : β} :
    Clean (sees kind >>= f) c b c' ↔ Clean (f (c.sees kind)) c b c' :=
  clean_bind_of_eq (clean_sees.2 ⟨rfl, rfl⟩)

theorem clean_atEnd_bind {f : Bool → Parse β} {c c' : Cursor} {b : β} :
    Clean (atEnd >>= f) c b c' ↔ Clean (f c.rest.isEmpty) c b c' :=
  clean_bind_of_eq (clean_atEnd.2 ⟨rfl, rfl⟩)

theorem clean_fresh_bind {f : Nat → Parse β} {c c' : Cursor} {b : β} :
    Clean (fresh >>= f) c b c' ↔ Clean (f c.fresh) (c.moved c.rest (c.fresh + 1)) b c' :=
  clean_bind_of_eq (clean_fresh.2 ⟨rfl, rfl⟩)

/-- The next token is of such a kind, or it is not. -/
theorem next_cases (p : Kind → Bool) (ts : List Token) :
    (∃ (t : Grammar.OneOf p) (us : List Token), ts = t.1 :: us) ∨ Without p ts := by
  cases ts with
  | nil => exact .inr (without_nil p)
  | cons t ts =>
    by_cases h : p t.kind = true
    · exact .inl ⟨⟨t, h⟩, ts, rfl⟩
    · exact .inr (without_cons.2 (by simpa using h))

theorem not_without {p : Kind → Bool} (t : Grammar.OneOf p) (ts : List Token) : ¬ Without p (t.1 :: ts) := by
  rw [without_cons, t.2]
  simp

theorem clean_take?_bind {p : Kind → Bool} {f : Option Token → Parse β} {c c' : Cursor} {b : β} :
    Clean (take? p >>= f) c b c' ↔
      (∃ (t : Grammar.OneOf p) (ts : List Token), c.rest = t.1 :: ts ∧ Clean (f (some t.1)) (c.moved ts c.fresh) b c') ∨
        (Without p c.rest ∧ Clean (f none) c b c') := by
  rcases next_cases p c.rest with ⟨t, ts, h⟩ | h
  · rw [clean_bind_of_eq (clean_take?.2 (.inl ⟨t, ts, h, rfl, rfl⟩))]
    constructor
    · exact fun h' => .inl ⟨t, ts, h, h'⟩
    · rintro (⟨u, us, hu, h'⟩ | ⟨hw, -⟩)
      · simp only [h, List.cons.injEq] at hu
        obtain ⟨htu, rfl⟩ := hu
        rw [htu]
        exact h'
      · rw [h] at hw
        exact absurd hw (not_without t ts)
  · rw [clean_bind_of_eq (clean_take?.2 (.inr ⟨h, rfl, rfl⟩))]
    constructor
    · exact fun h' => .inr ⟨h, h'⟩
    · rintro (⟨u, us, hu, -⟩ | ⟨-, h'⟩)
      · rw [hu] at h
        exact absurd h (not_without u us)
      · exact h'

theorem clean_accept_bind {kind : Kind} {f : Bool → Parse β} {c c' : Cursor} {b : β} :
    Clean (accept kind >>= f) c b c' ↔
      (∃ (t : Grammar.Word kind) (ts : List Token), c.rest = t.1 :: ts ∧ Clean (f true) (c.moved ts c.fresh) b c') ∨
        (Without (· = kind) c.rest ∧ Clean (f false) c b c') := by
  unfold accept
  rw [bind_assoc, clean_take?_bind]
  rfl

theorem clean_expect_bind {kind : Kind} {what : String} {f : Token → Parse β} {c c' : Cursor} {b : β} :
    Clean (expect kind what >>= f) c b c' ↔
      ∃ (t : Grammar.Word kind) (ts : List Token), c.rest = t.1 :: ts ∧ Clean (f t.1) (c.moved ts c.fresh) b c' := by
  unfold expect
  rw [bind_assoc, clean_take?_bind]
  constructor
  · rintro (h | ⟨-, h, -⟩)
    · exact h
    · simp [bind_def, fail] at h
  · exact .inl

theorem clean_expect {kind : Kind} {what : String} {c c' : Cursor} {t : Token} :
    Clean (expect kind what) c t c' ↔
      ∃ (w : Grammar.Word kind) (ts : List Token), c.rest = w.1 :: ts ∧ t = w.1 ∧ c' = c.moved ts c.fresh := by
  have h := @clean_expect_bind _ kind what pure c c' t
  simp only [clean_pure] at h
  rw [← h, bind_pure]

theorem clean_recovering {p : Parse α} (hp : Grows p) {c c' : Cursor} {o : Option α} :
    Clean (recovering p) c o c' ↔ ∃ a, o = some a ∧ Clean p c a c' := by
  obtain ⟨fs, h, hn⟩ := hp.notes c
  unfold Clean recovering
  rcases hpc : p c with ⟨_ | a, c₁⟩
  · rw [hpc] at h hn
    constructor
    · rintro ⟨h', hf⟩
      simp only [Prod.mk.injEq, Option.some.injEq] at h'
      obtain ⟨-, rfl⟩ := h'
      simp only at h hf
      rw [h] at hf
      exact absurd (List.append_right_eq_self.1 hf) (hn rfl)
    · rintro ⟨a, -, h', -⟩
      simp at h'
  · simp only [Prod.mk.injEq, Option.some.injEq]
    constructor
    · rintro ⟨⟨rfl, rfl⟩, hf⟩
      exact ⟨a, rfl, ⟨rfl, rfl⟩, hf⟩
    · rintro ⟨b, rfl, ⟨rfl, rfl⟩, hf⟩
      exact ⟨⟨rfl, rfl⟩, hf⟩

/-! ## Rules and languages -/

/-- What a rule is to read. -/
structure Language (α : Type) where
  Derivation : Type
  yield : Derivation → List Token
  build : Derivation → Nat → α × Nat
  /-- Whether the derivation is the one to find where such tokens follow it. -/
  Suits : Derivation → List Token → Prop

/-- **The rule reads the language**: on at most `n` tokens it reads cleanly exactly what a derivation yields, and gives
what the derivation builds. -/
def Reads (p : Parse α) (L : Language α) (n : Nat) : Prop :=
  ∀ (c : Cursor) (a : α) (c' : Cursor), c.rest.length ≤ n →
    (Clean p c a c' ↔ ∃ d r, c.rest = L.yield d ++ r ∧ L.Suits d r ∧
      a = (L.build d c.fresh).1 ∧ c' = c.moved r (L.build d c.fresh).2)

namespace Reads

variable {p : Parse α} {L : Language α} {n : Nat}

theorem mono {m : Nat} (h : Reads p L n) (hm : m ≤ n) : Reads p L m :=
  fun c a c' hc => h c a c' (Nat.le_trans hc hm)

theorem derivation (h : Reads p L n) {c c' : Cursor} {a : α} (hn : c.rest.length ≤ n) (hc : Clean p c a c') :
    ∃ d r, c.rest = L.yield d ++ r ∧ L.Suits d r ∧ a = (L.build d c.fresh).1 ∧
      c' = c.moved r (L.build d c.fresh).2 := (h c a c' hn).1 hc

theorem clean (h : Reads p L n) {c : Cursor} {d : L.Derivation} {r : List Token} (hn : c.rest.length ≤ n)
    (hr : c.rest = L.yield d ++ r) (hf : L.Suits d r) :
    Clean p c (L.build d c.fresh).1 (c.moved r (L.build d c.fresh).2) :=
  (h c _ _ hn).2 ⟨d, r, hr, hf, rfl, rfl⟩

theorem bind_iff {f : α → Parse β} (h : Reads p L n) (hp : Grows p) (hf : ∀ a, Grows (f a)) {c c' : Cursor} {b : β}
    (hn : c.rest.length ≤ n) :
    Clean (p >>= f) c b c' ↔ ∃ d r, c.rest = L.yield d ++ r ∧ L.Suits d r ∧
      Clean (f (L.build d c.fresh).1) (c.moved r (L.build d c.fresh).2) b c' := by
  rw [clean_bind hp hf]
  constructor
  · rintro ⟨a, c₁, h₁, h₂⟩
    obtain ⟨d, r, hr, hfit, rfl, rfl⟩ := h.derivation hn h₁
    exact ⟨d, r, hr, hfit, h₂⟩
  · rintro ⟨d, r, hr, hfit, h₂⟩
    exact ⟨_, _, h.clean hn hr hfit, h₂⟩

end Reads
end Parse
end Scriptlet
