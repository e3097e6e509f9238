import Mathlib
import Scriptlet.Proofs.Continuation

/-!
# Limited sinks

A run on a sink that keeps `n` bytes goes along with the run of the same text on an unlimited one, up to the first byte
that does not fit.  There it fails, and nothing takes the fault up or prints behind it: calls, blocks and loops only
hand it on (`capped_execAll`, `capped_invoke`).  So what was kept are the first `n` bytes of the whole output, wherever
the cut falls (`Session.full_sink_keeps_first_bytes`).
-/
namespace Scriptlet

theorem extract_of_size_le {n : Nat} {bytes : ByteArray} (h : bytes.size ≤ n) : bytes.extract 0 n = bytes := by
  rw [← Nat.max_eq_left h, ByteArray.extract_zero_max_size]

theorem extract_append_of_le_size {n : Nat} {bytes : ByteArray} (h : n ≤ bytes.size) (more : ByteArray) :
    (bytes ++ more).extract 0 n = bytes.extract 0 n := by
  simp [ByteArray.extract_append, h]

namespace Sink

/-- A sink that keeps its first `n` bytes. -/
def limited (n : Nat) : Sink := ⟨.empty, some n, true⟩

/-- The sink as it would be had it kept `n` bytes only. -/
def truncated (n : Nat) (s : Sink) : Sink := { s with bytes := s.bytes.extract 0 n, limit := some n }

/-- The sink after it took some more bytes. -/
def grown (s : Sink) (more : ByteArray) : Sink := { s with bytes := s.bytes ++ more }

variable {s : Sink} {n : Nat}

theorem bytes_truncated (n : Nat) (s : Sink) : (s.truncated n).bytes = s.bytes.extract 0 n := rfl

theorem truncated_unlimited (n : Nat) : unlimited.truncated n = limited n := by
  have h : ByteArray.empty.extract 0 n = .empty := extract_of_size_le (Nat.zero_le n)
  unfold truncated unlimited limited
  rw [h]

theorem write_unlimited (h : s.limit = none) (text : String) : s.write text = (.ok (), s.grown text.toUTF8) := by
  unfold write grown
  simp only [h]

/-- What a sink had room for so far does not show its limit, so the next text meets the same bytes. -/
theorem write_truncated (h : s.bytes.size ≤ n) (text : String) : (s.truncated n).write text =
    (if (s.grown text.toUTF8).bytes.size ≤ n then .ok () else .error (.output .sinkFull),
      (s.grown text.toUTF8).truncated n) := by
  unfold write truncated grown
  dsimp only
  rw [extract_of_size_le h]
  split
  next hle => rw [extract_of_size_le hle]
  next => rfl

end Sink

/-- The machine as it would be had its sink kept `n` bytes only. -/
def Machine.truncated (n : Nat) (m : Machine) : Machine := { m with sink := m.sink.truncated n }

/-- How a run ends on a sink that keeps `n` bytes, given how it ends on an unlimited one. -/
inductive Kept {α : Type} (n : Nat) : Signal α × Machine → Signal α × Machine → Prop
  /-- Everything found room. -/
  | all {signal : Signal α} {m : Machine} (room : m.sink.bytes.size ≤ n) : Kept n (signal, m) (signal, m.truncated n)
  /-- The run stopped at the first byte that found none.  What the other run went on to do does not matter. -/
  | first {signal : Signal α} {m m' : Machine} (excess : n < m.sink.bytes.size) (sink : m'.sink = m.sink.truncated n) :
    Kept n (signal, m) (.failed (.output .sinkFull), m')

/-- A run that only adds to what was printed, and that a limit on the sink can only cut short. -/
structure Run.Capped {α : Type} (n : Nat) (r : Run α) : Prop where
  grows (m : Machine) : m.sink.limit = none → ∃ more, (r m).2.sink = m.sink.grown more
  kept (m : Machine) : m.sink.limit = none → m.sink.bytes.size ≤ n → Kept n (r m) (r (m.truncated n))

/-- A run that neither prints nor looks at the sink. -/
def Run.Silent {α : Type} (r : Run α) : Prop :=
  ∀ (m : Machine) (sink : Sink), r { m with sink } = ((r m).1, { (r m).2 with sink })

namespace Run

variable {α β : Type} {n : Nat} {r : Run α}

theorem Silent.sink_eq (h : Silent r) (m : Machine) : (r m).2.sink = m.sink :=
  congrArg (·.2.sink) (h m m.sink)

theorem Silent.capped (h : Silent r) : Capped n r where
  grows m _ := ⟨.empty, by rw [h.sink_eq, Sink.grown, ByteArray.append_empty]⟩
  kept m _ hle := by
    have hs := h.sink_eq m
    have hr : r (m.truncated n) = ((r m).1, (r m).2.truncated n) := by
      rw [Machine.truncated, Machine.truncated, hs]
      exact h m (m.sink.truncated n)
    rw [hr]
    exact .all (by rwa [hs])

theorem silent_pure (a : α) : Silent (pure a) := fun _ _ => rfl

theorem silent_fail (f : Fault) : Silent (fail f : Run α) := fun _ _ => rfl

theorem silent_ofExcept : ∀ e : Except Fault α, Silent (ofExcept e)
  | .ok a => silent_pure a
  | .error f => silent_fail f

theorem silent_lookUp (id : Nat) (name : Token) : Silent (lookUp id name) :=
  fun m sink => silent_ofExcept (m.store.read (m.holder? id name.lexeme) name) m sink

theorem silent_assign (id : Nat) (name : Token) (v : Value) : Silent (assign id name v) := by
  intro m sink
  have hm : Machine.holder? { m with sink } id name.lexeme = m.holder? id name.lexeme := rfl
  unfold assign
  rw [hm]
  cases m.holder? id name.lexeme <;> rfl

theorem silent_neutral {r : Run Value} : Neutral r → Silent r
  | .inl ⟨v, _, h⟩ => h ▸ silent_pure v
  | .inr ⟨f, h⟩ => h ▸ silent_fail f

/-- A text is printed whole, or cut where the room ends. -/
theorem capped_print (text : String) : Capped n (print text) := by
  have hp (m : Machine) (h : m.sink.limit = none) :
      print text m = (.value (), { m with sink := m.sink.grown (text ++ "\n").toUTF8 }) := by
    unfold print
    rw [Sink.write_unlimited h]
    rfl
  refine ⟨fun m h => ⟨_, by rw [hp m h]⟩, fun m h hle => ?_⟩
  have hw := Sink.write_truncated hle (text ++ "\n")
  have hsink : (m.truncated n).sink = m.sink.truncated n := rfl
  rw [hp m h, print, hsink, hw]
  dsimp only
  split
  next hroom => exact .all hroom
  next hroom => exact .first (Nat.lt_of_not_le hroom) rfl

/-- Once the room is used up, what the unlimited run still prints is not among the first bytes. -/
theorem Capped.sink_truncated_eq (h : Capped n r) {m : Machine} (hm : m.sink.limit = none)
    (hn : n < m.sink.bytes.size) :
    n < (r m).2.sink.bytes.size ∧ (r m).2.sink.truncated n = m.sink.truncated n := by
  obtain ⟨more, hmore⟩ := h.grows m hm
  rw [hmore]
  refine ⟨?_, ?_⟩
  · rw [Sink.grown, ByteArray.size_append]
    omega
  · unfold Sink.truncated Sink.grown
    rw [extract_append_of_le_size hn.le]

theorem Capped.limit_eq (h : Capped n r) {m : Machine} (hm : m.sink.limit = none) : (r m).2.sink.limit = none := by
  obtain ⟨more, hmore⟩ := h.grows m hm
  rw [hmore]
  exact hm

theorem Capped.bind {k : α → Run β} (h : Capped n r) (hk : ∀ a, Capped n (k a)) : Capped n (r >>= k) where
  grows m hm := by
    obtain ⟨more, hmore⟩ := h.grows m hm
    have hlim := h.limit_eq hm
    rw [bind_def]
    rcases hr : r m with ⟨a | v | f | _, m₁⟩ <;> rw [hr] at hmore hlim <;> dsimp only at hmore hlim ⊢
    · obtain ⟨more', hmore'⟩ := (hk a).grows m₁ hlim
      refine ⟨more ++ more', ?_⟩
      rw [hmore', hmore, Sink.grown, Sink.grown, Sink.grown, ByteArray.append_assoc]
    all_goals exact ⟨more, hmore⟩
  kept m hm hle := by
    have hkept := h.kept m hm hle
    have hlim := h.limit_eq hm
    rw [bind_def, bind_def]
    generalize r m = e at hkept hlim
    generalize r (m.truncated n) = e' at hkept
    cases hkept with
    | @all signal m₁ room =>
      cases signal with
      | value a => exact (hk a).kept m₁ hlim room
      | returned v => exact .all room
      | failed f => exact .all room
      | spent => exact .all room
    | @first signal m₁ m₂ excess sink =>
      cases signal with
      | value a =>
        obtain ⟨hlt, heq⟩ := (hk a).sink_truncated_eq hlim excess
        exact .first hlt (sink.trans heq.symm)
      | returned v => exact .first excess sink
      | failed f => exact .first excess sink
      | spent => exact .first excess sink

theorem Capped.choose {b : Prop} [Decidable b] {k : Run α} (h : Capped n r) (hk : Capped n k) :
    Capped n (if b then r else k) := by
  split
  · exact h
  · exact hk

theorem Capped.within (h : Capped n r) (f : FrameId) : Capped n (within f r) where
  grows m hm := h.grows { m with here := f } hm
  kept m hm hle := by
    have hkept := h.kept { m with here := f } hm hle
    change Kept n ((r { m with here := f }).1, { (r { m with here := f }).2 with here := m.here })
      ((r (Machine.truncated n { m with here := f })).1,
        { (r (Machine.truncated n { m with here := f })).2 with here := m.here })
    generalize r { m with here := f } = e at hkept ⊢
    generalize r (Machine.truncated n { m with here := f }) = e' at hkept ⊢
    cases hkept with
    | all room => exact .all room
    | first excess sink => exact .first excess sink

theorem Capped.result {r : Run Unit} (h : Capped n r) : Capped n (result r) where
  grows m hm := by
    obtain ⟨more, hmore⟩ := h.grows m hm
    refine ⟨more, ?_⟩
    unfold Run.result
    rcases hr : r m with ⟨a | v | f | _, m₁⟩ <;> rw [hr] at hmore <;> exact hmore
  kept m hm hle := by
    have hkept := h.kept m hm hle
    unfold Run.result
    generalize r m = e at hkept
    generalize r (m.truncated n) = e' at hkept
    cases hkept with
    | @all signal m₁ room => cases signal <;> exact .all room
    | @first signal m₁ m₂ excess sink => cases signal <;> exact .first excess sink

end Run

/-! ## Trees -/

section

open Run

variable {n : Nat} {inv : Invoke}

theorem capped_applyCall (hi : ∀ f vs, Capped n (inv f vs)) (t : Token) (v : Value) (vs : List Value) :
    Capped n (applyCall inv t v vs) := by
  unfold applyCall
  split
  · exact .choose (hi _ _) (silent_fail _).capped
  · exact (silent_fail _).capped

mutual
theorem capped_eval (hi : ∀ f vs, Capped n (inv f vs)) : ∀ e : Expr, Capped n (e.eval inv)
  | .literal _ => (silent_pure _).capped
  | .variable id name => (silent_lookUp id name).capped
  | .assign id name e => (capped_eval hi e).bind fun v =>
      (silent_assign id name v).capped.bind fun _ => (silent_pure v).capped
  | .group e => capped_eval hi e
  | .unary t e => (capped_eval hi e).bind fun v => (silent_neutral (neutral_applyUnary t v)).capped
  | .binary l t r => (capped_eval hi l).bind fun v => (capped_eval hi r).bind fun w =>
      (silent_neutral (neutral_applyBinary t v w)).capped
  | .logical l _ r => (capped_eval hi l).bind fun v => .choose (silent_pure v).capped (capped_eval hi r)
  | .call e t es => (capped_eval hi e).bind fun f => (capped_evalAll hi es).bind fun vs => capped_applyCall hi t f vs

theorem capped_evalAll (hi : ∀ f vs, Capped n (inv f vs)) : ∀ es : List Expr, Capped n (Expr.evalAll inv es)
  | [] => (silent_pure _).capped
  | e :: es => (capped_eval hi e).bind fun _ => (capped_evalAll hi es).bind fun _ => (silent_pure _).capped
end

theorem capped_optionalEval (hi : ∀ f vs, Capped n (inv f vs)) : ∀ o : Option Expr, Capped n (optionalEval inv o)
  | none => (silent_pure _).capped
  | some e => capped_eval hi e

theorem capped_loop {test : Run Value} {body : Run Unit} (ht : Capped n test) (hb : Capped n body) :
    ∀ k, Capped n (loop test body k)
  | 0 => Silent.capped fun _ _ => rfl
  | k + 1 => by
    rw [loop_succ]
    exact ht.bind fun _ => .choose (hb.bind fun _ => capped_loop ht hb k) (silent_pure ()).capped

mutual
theorem capped_exec (hi : ∀ f vs, Capped n (inv f vs)) (k : Nat) : ∀ s : Stmt, Capped n (s.exec inv k)
  | .block body => (Silent.capped fun _ _ => rfl).bind fun f => (capped_execAll hi k body).within f
  | .expression e => (capped_eval hi e).bind fun _ => (silent_pure ()).capped
  | .function _ _ _ => Silent.capped fun _ _ => rfl
  | .conditional e yes none => (capped_eval hi e).bind fun _ => .choose (capped_exec hi k yes) (silent_pure ()).capped
  | .conditional e yes (some no) => (capped_eval hi e).bind fun _ =>
      .choose (capped_exec hi k yes) (capped_exec hi k no)
  | .print e => (capped_eval hi e).bind fun v => capped_print v.display
  | .return _ o => (capped_optionalEval hi o).bind fun _ => Silent.capped fun _ _ => rfl
  | .var _ o => (capped_optionalEval hi o).bind fun _ => Silent.capped fun _ _ => rfl
  | .while e body => capped_loop (capped_eval hi e) (capped_exec hi k body) k

theorem capped_execAll (hi : ∀ f vs, Capped n (inv f vs)) (k : Nat) :
    ∀ ss : List Stmt, Capped n (Stmt.execAll inv k ss)
  | [] => (silent_pure ()).capped
  | s :: ss => (capped_exec hi k s).bind fun _ => capped_execAll hi k ss
end

theorem silent_apply (f : Native) (vs : List Value) : Silent (f.apply vs) := by
  intro m sink
  unfold Native.apply
  cases f.host <;> rfl

theorem capped_bindParams (frame : FrameId) (ps : List Token) (vs : List Value) :
    Capped n (bindParams frame ps vs) := by
  fun_induction bindParams frame ps vs with
  | case1 p ps v vs ih => exact (Silent.capped fun _ _ => rfl).bind fun _ => ih
  | case2 => exact (silent_pure ()).capped

theorem capped_invoke : ∀ (k : Nat) (f : Callable) (vs : List Value), Capped n (invoke k f vs)
  | 0, .native _ f, vs => (silent_apply f vs).capped
  | _ + 1, .native _ f, vs => (silent_apply f vs).capped
  | 0, .closure _ _ _, _ => Silent.capped fun _ _ => rfl
  | k + 1, .closure _ f _, vs => (Silent.capped fun _ _ => rfl).bind fun inner =>
      (capped_bindParams inner f.params vs).bind fun _ =>
        ((capped_execAll (capped_invoke k) k f.body).within inner).result

end

/-! ## Texts -/

/-- A run of statements is capped as a whole: the sink can be flushed, whether it is full or not. -/
theorem interpret_truncated (n bound : Nat) (ss : List Stmt) {m : Machine} (hm : m.sink.limit = none)
    (hf : m.sink.flushable = true) (hle : m.sink.bytes.size ≤ n) :
    (interpret bound ss (m.truncated n)).2.sink = (interpret bound ss m).2.sink.truncated n ∧
      (interpret bound ss (m.truncated n)).1 =
        if (interpret bound ss m).2.sink.bytes.size ≤ n then (interpret bound ss m).1
        else .runtimeFault (.output .sinkFull) := by
  have hcap : Run.Capped n (Stmt.execAll (invoke bound) bound ss) := capped_execAll (capped_invoke bound) bound ss
  obtain ⟨more, hmore⟩ := hcap.grows m hm
  have hkept := hcap.kept m hm hle
  rw [interpret_eq, interpret_eq]
  generalize Stmt.execAll (invoke bound) bound ss m = e at hmore hkept
  generalize Stmt.execAll (invoke bound) bound ss (m.truncated n) = e' at hkept
  have hflush : e.2.sink.flushable = true := by rw [hmore]; exact hf
  cases hkept with
  | @all signal m₁ room =>
    dsimp only at hflush ⊢
    refine ⟨rfl, ?_⟩
    rw [if_pos room, if_pos hflush]
    exact if_pos hflush
  | @first signal m₁ m₂ excess sink =>
    dsimp only at hflush ⊢
    refine ⟨sink, ?_⟩
    rw [if_neg (Nat.not_le_of_lt excess), sink]
    exact if_pos hflush

namespace Session

/-- The session as it would be had its sink kept `n` bytes only. -/
def truncated (n : Nat) (s : Session) : Session := { s with machine := s.machine.truncated n }

theorem start_truncated (n : Nat) (clock : Nat → Number) :
    start (.limited n) clock = (start .unlimited clock).truncated n := by
  rw [← Sink.truncated_unlimited]
  rfl

/-- A text is cut where its statements are; a rejected one prints nothing, so there is nothing to cut. -/
theorem run_truncated (n bound : Nat) (source : String) {s : Session} (hs : s.machine.sink.limit = none)
    (hf : s.machine.sink.flushable = true) (hle : s.machine.sink.bytes.size ≤ n) :
    ((s.truncated n).run bound source).2.machine.sink = (s.run bound source).2.machine.sink.truncated n ∧
      ((s.truncated n).run bound source).1 = if (s.run bound source).2.machine.sink.bytes.size ≤ n then
        (s.run bound source).1 else .runtimeFault (.output .sinkFull) := by
  have hfresh : (s.truncated n).fresh = s.fresh := rfl
  unfold run
  rw [hfresh]
  generalize analyze s.fresh source = a
  by_cases ha : a.faults.isEmpty = true
  · rw [if_pos ha, if_pos ha]
    exact interpret_truncated n bound a.statements
      (m := { s.machine with bindings := s.machine.bindings.add a.entries })
      hs hf hle
  · rw [if_neg ha, if_neg ha]
    exact ⟨rfl, (if_pos hle).symm⟩

/-- **A full sink holds exactly the first bytes of the output.**  Whatever a text prints on an unlimited sink, one that
keeps `n` bytes is left with the first `n` of them; the text fares the same if that is all, and else it ends with the
fault of the sink. -/
theorem full_sink_keeps_first_bytes (clock : Nat → Number) (n bound : Nat) (source : String) :
    let whole := (start .unlimited clock).run bound source
    let kept := (start (.limited n) clock).run bound source
    kept.2.machine.sink.bytes = whole.2.machine.sink.bytes.extract 0 n ∧
      kept.1 = if whole.2.machine.sink.bytes.size ≤ n then whole.1 else .runtimeFault (.output .sinkFull) := by
  obtain ⟨hsink, houtcome⟩ := run_truncated n bound source (s := start .unlimited clock) rfl rfl (Nat.zero_le n)
  rw [← start_truncated] at hsink houtcome
  dsimp only
  rw [hsink, houtcome, Sink.bytes_truncated]
  exact ⟨rfl, rfl⟩

end Session
end Scriptlet
