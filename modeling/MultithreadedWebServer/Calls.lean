import MultithreadedWebServer.Run

/-!
# Programs as trees of calls

A `Run` that stops keeps no state, so it says nothing about what a process leaves behind
when it dies half-way, and it does not say which calls a program makes. `Calls C answer α`
is the free monad over a set `C` of calls: a program is the tree of the calls it makes, one
branch for each answer.

* `run` interprets the calls as runs, and forgets the state when the process stops.
* `exec` interprets them too, and keeps the state.
* `exec_invariant` is the rule for what every call preserves, and `exec_simulates` the rule
  for two interpretations of the same program.
-/

namespace MultithreadedWebServer

universe u v w x

/-- A program that makes calls `c : C`, with answers in `answer c`. -/
inductive Calls (C : Type u) (answer : C → Type v) (α : Type w) : Type (max u v w) where
  /-- return a value -/
  | ret (a : α)
  /-- end the process -/
  | stop (e : Stop)
  /-- make a call, and go on with its answer -/
  | call (c : C) (next : answer c → Calls C answer α)

namespace Calls

variable {C : Type u} {answer : C → Type v} {α β : Type w}

/-- Go on with `f` where the first program returns. -/
protected def bind : Calls C answer α → (α → Calls C answer β) → Calls C answer β
  | ret a, f => f a
  | stop e, _ => stop e
  | call c next, f => call c fun y => (next y).bind f

instance : Monad (Calls C answer) where
  pure := ret
  bind := Calls.bind

/-- A single call. -/
def make {C : Type u} {answer : C → Type v} (c : C) : Calls C answer (answer c) := call c ret

/-- A computation that makes no call. -/
def lift : Except Stop α → Calls C answer α
  | .ok a => ret a
  | .error e => stop e

/-- A run that does not look at the state. -/
def compute (m : Run PUnit α) : Calls C answer α := lift ((m ⟨⟩).map Prod.fst)

/-- `Verify333(exp)`. -/
def verify333 (exp : Bool) : Calls C answer PUnit := if exp then ret ⟨⟩ else stop .verify333

@[simp] theorem pure_eq (a : α) : (pure a : Calls C answer α) = ret a := rfl

@[simp] theorem ret_bind (a : α) (f : α → Calls C answer β) : ret a >>= f = f a := rfl

@[simp] theorem stop_bind (e : Stop) (f : α → Calls C answer β) :
    (stop e : Calls C answer α) >>= f = stop e := rfl

@[simp] theorem call_bind (c : C) (next : answer c → Calls C answer α)
    (f : α → Calls C answer β) : call c next >>= f = call c fun y => next y >>= f := rfl

@[simp] theorem lift_ok (a : α) : (lift (.ok a) : Calls C answer α) = ret a := rfl

@[simp] theorem lift_error (e : Stop) : (lift (.error e) : Calls C answer α) = stop e := rfl

@[simp] theorem compute_pure (a : α) :
    (compute (pure a : Run PUnit α) : Calls C answer α) = ret a := rfl

@[simp] theorem verify333_true : (verify333 true : Calls C answer PUnit) = ret ⟨⟩ := rfl

@[simp] theorem verify333_false :
    (verify333 false : Calls C answer PUnit) = stop .verify333 := rfl

/-! ## Interpretations -/

section Interpretation

variable {σ : Type x} {τ : Type x} {α β : Type v}

/-- The run of a program whose calls are runs. -/
def run (handler : (c : C) → Run σ (answer c)) : Calls C answer α → Run σ α
  | ret a => pure a
  | stop e => Run.stop e
  | call c next => handler c >>= fun y => run handler (next y)

/-- How a program ends, and the state it leaves, also when the process stops. A call that
stops the process leaves the state as it was. -/
def exec (handler : (c : C) → Run σ (answer c)) : Calls C answer α → σ → Except Stop α × σ
  | ret a, s => (.ok a, s)
  | stop e, s => (.error e, s)
  | call c next, s =>
    match handler c s with
    | .error e => (.error e, s)
    | .ok (y, s') => exec handler (next y) s'

variable (handler : (c : C) → Run σ (answer c))

@[simp] theorem run_ret (a : α) : run handler (ret a) = pure a := rfl

@[simp] theorem run_stop (e : Stop) :
    run handler (stop e : Calls C answer α) = Run.stop e := rfl

@[simp] theorem exec_ret (a : α) (s : σ) : exec handler (ret a) s = (.ok a, s) := rfl

@[simp] theorem exec_stop (e : Stop) (s : σ) :
    exec handler (stop e : Calls C answer α) s = (.error e, s) := rfl

theorem run_bind (m : Calls C answer α) (f : α → Calls C answer β) :
    run handler (m >>= f) = run handler m >>= fun a => run handler (f a) := by
  induction m with
  | ret a => rfl
  | stop e => rfl
  | call c next ih =>
    rw [call_bind, run, run, Run.bind_assoc]
    exact congrArg (handler c >>= ·) (funext ih)

/-- Programs are compared with runs part by part. -/
theorem run_bind_congr {m : Calls C answer α} {f : α → Calls C answer β} {m' : Run σ α}
    {f' : α → Run σ β} (hm : run handler m = m') (hf : ∀ a, run handler (f a) = f' a) :
    run handler (m >>= f) = m' >>= f' := by
  rw [run_bind, hm]
  exact congrArg (m' >>= ·) (funext hf)

theorem run_ite_congr {p : Prop} [Decidable p] {m n : Calls C answer α} {m' n' : Run σ α}
    (hm : p → run handler m = m') (hn : ¬p → run handler n = n') :
    run handler (if p then m else n) = if p then m' else n' := by
  split
  · exact hm ‹_›
  · exact hn ‹_›

theorem run_make (c : C) : run handler (make c) = handler c := by
  funext s
  rw [make, run, Run.bind_apply]
  rcases handler c s with e | ⟨y, s'⟩ <;> rfl

theorem run_verify333 (exp : Bool) : run handler (verify333 exp) = Run.verify333 exp := by
  cases exp <;> rfl

/-- A run is what `exec` does, without the state of a process that stopped. -/
theorem run_eq_exec (m : Calls C answer α) (s : σ) : run handler m s =
    match exec handler m s with
    | (.ok a, s') => .ok (a, s')
    | (.error e, _) => .error e := by
  induction m generalizing s with
  | ret a => rfl
  | stop e => rfl
  | call c next ih =>
    rw [run, exec, Run.bind_apply]
    rcases handler c s with e | ⟨y, s'⟩
    · rfl
    · exact ih y s'

variable {handler}

theorem exec_call {c : C} {next : answer c → Calls C answer α} {s s' : σ} {y : answer c}
    (h : handler c s = .ok (y, s')) :
    exec handler (call c next) s = exec handler (next y) s' := by
  rw [exec, h]

theorem exec_call_error {c : C} {next : answer c → Calls C answer α} {s : σ} {e : Stop}
    (h : handler c s = .error e) : exec handler (call c next) s = (.error e, s) := by
  rw [exec, h]

theorem exec_bind_ok {m : Calls C answer α} {f : α → Calls C answer β} {s s' : σ} {a : α}
    (h : exec handler m s = (.ok a, s')) : exec handler (m >>= f) s = exec handler (f a) s' := by
  induction m generalizing s with
  | ret b =>
    obtain ⟨hb, rfl⟩ := Prod.mk.inj h
    obtain rfl := Except.ok.inj hb
    rfl
  | stop e =>
    obtain ⟨he, -⟩ := Prod.mk.inj h
    cases he
  | call c next ih =>
    rw [exec] at h
    rw [call_bind, exec]
    rcases hc : handler c s with e | ⟨y, s₁⟩
    · rw [hc] at h
      obtain ⟨he, -⟩ := Prod.mk.inj h
      cases he
    · rw [hc] at h
      exact ih y h

theorem exec_bind_error {m : Calls C answer α} {f : α → Calls C answer β} {s s' : σ} {e : Stop}
    (h : exec handler m s = (.error e, s')) : exec handler (m >>= f) s = (.error e, s') := by
  induction m generalizing s with
  | ret b =>
    obtain ⟨hb, -⟩ := Prod.mk.inj h
    cases hb
  | stop e' =>
    obtain ⟨he, rfl⟩ := Prod.mk.inj h
    obtain rfl := Except.error.inj he
    rfl
  | call c next ih =>
    rw [exec] at h
    rw [call_bind, exec]
    rcases hc : handler c s with e' | ⟨y, s₁⟩
    · rw [hc] at h
      obtain ⟨he, rfl⟩ := Prod.mk.inj h
      obtain rfl := Except.error.inj he
      rfl
    · rw [hc] at h
      exact ih y h

theorem exec_of_run {m : Calls C answer α} {s s' : σ} {a : α}
    (h : (run handler m).Returns s a s') : exec handler m s = (.ok a, s') := by
  rw [Run.Returns, run_eq_exec] at h
  rcases he : exec handler m s with ⟨r, s₁⟩
  rw [he] at h
  cases r with
  | error e => cases h
  | ok b =>
    obtain ⟨rfl, rfl⟩ := Prod.mk.inj (Except.ok.inj h)
    rfl

/-- What every call keeps, every program keeps. -/
theorem exec_invariant {inv : σ → Prop}
    (hstep : ∀ c s y s', inv s → handler c s = .ok (y, s') → inv s') (m : Calls C answer α)
    {s : σ} (h : inv s) : inv (exec handler m s).2 := by
  induction m generalizing s with
  | ret a => exact h
  | stop e => exact h
  | call c next ih =>
    rw [exec]
    rcases hc : handler c s with e | ⟨y, s'⟩
    · exact h
    · exact ih y (hstep c s y s' h hc)

/-- Two interpretations that agree on every call, up to a relation of their states. -/
theorem exec_simulates {handler' : (c : C) → Run τ (answer c)} {rel : σ → τ → Prop}
    (hstep : ∀ c s t, rel s t →
      (∃ e, handler c s = .error e ∧ handler' c t = .error e) ∨
      ∃ y s' t', handler c s = .ok (y, s') ∧ handler' c t = .ok (y, t') ∧ rel s' t')
    (m : Calls C answer α) {s : σ} {t : τ} (h : rel s t) :
    (exec handler m s).1 = (exec handler' m t).1 ∧
      rel (exec handler m s).2 (exec handler' m t).2 := by
  induction m generalizing s t with
  | ret a => exact ⟨rfl, h⟩
  | stop e => exact ⟨rfl, h⟩
  | call c next ih =>
    rw [exec, exec]
    rcases hstep c s t h with ⟨e, hs, ht⟩ | ⟨y, s', t', hs, ht, hrel⟩
    · rw [hs, ht]
      exact ⟨rfl, h⟩
    · rw [hs, ht]
      exact ih y hrel

end Interpretation

end Calls

end MultithreadedWebServer
