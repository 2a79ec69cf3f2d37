import Mathlib.Data.List.Basic

/-!
# The run layer: stateful computations that may stop

Everything the programs of this repository do is embedded as a *run*: a function
from a state to either the reason the process stopped or a value and the next
state. The state type is a parameter. The C containers only need the schedule of
`malloc` verdicts, the index writer needs a whole file, the web server needs a
socket.

* `Stop` lists the ways a run ends without returning. `fault` stands for
  undefined behaviour (a NULL, freed or out-of-range access), so a theorem that a
  run returns also says that none of that happened.
* `Run σ α` is the monad; `Run.Returns m s a s'` says that `m`, started in `s`,
  returns `a` and leaves `s'`. Proofs follow a program by `Returns.bind`.
* `Schedule` is the sequence of verdicts of the coming `malloc` calls. Past its end
  every call succeeds, so `[]` is the run in which no allocation fails.
-/

namespace MultithreadedWebServer

universe u v

/-- Why a run ends without returning a value. -/
inductive Stop : Type where
  /-- a failed `Verify333`: the process exits -/
  | verify333
  /-- undefined behaviour: a NULL, freed or out-of-range access -/
  | fault
  /-- a C++ exception leaves the function -/
  | exception
  /-- an explicit `exit(EXIT_FAILURE)` -/
  | exitFailure
  /-- a loop or recursion that passed the bound the model gives it -/
  | diverges
  deriving DecidableEq, Repr

theorem ok_bind {α β : Type} (a : α) (f : α → Except Stop β) : (Except.ok a >>= f) = f a := rfl

/-- A stateful computation that may stop the process. -/
def Run (σ : Type u) (α : Type v) : Type (max u v) := σ → Except Stop (α × σ)

namespace Run

variable {σ : Type u} {α β : Type v}

/-- Return a value, state untouched. -/
protected def pure (a : α) : Run σ α := fun s => .ok (a, s)

/-- Sequencing: a stop of the first part is a stop of the whole. -/
protected def bind (m : Run σ α) (f : α → Run σ β) : Run σ β := fun s =>
  match m s with
  | .error e => .error e
  | .ok (a, s') => f a s'

instance : Monad (Run σ) where
  pure := Run.pure
  bind := Run.bind

/-- End the process. -/
def stop (e : Stop) : Run σ α := fun _ => .error e

/-- `Verify333(exp)`: exit the process unless `exp` holds. -/
def verify333 (exp : Bool) : Run σ PUnit := if exp then pure ⟨⟩ else stop .verify333

/-- Read the state. -/
def get : Run σ σ := fun s => .ok (s, s)

/-- Replace the state. -/
def set (s : σ) : Run σ PUnit := fun _ => .ok (⟨⟩, s)

/-- A computation that does not look at the state. -/
def lift (m : Except Stop α) : Run σ α := fun s =>
  match m with
  | .error e => .error e
  | .ok a => .ok (a, s)

/-- `Returns m s a s'`: started in `s`, `m` returns `a` and leaves state `s'`. -/
def Returns (m : Run σ α) (s : σ) (a : α) (s' : σ) : Prop := m s = .ok (a, s')

@[simp] theorem pure_apply (a : α) (s : σ) : (pure a : Run σ α) s = .ok (a, s) := rfl

@[simp] theorem stop_apply (e : Stop) (s : σ) : (stop e : Run σ α) s = .error e := rfl

@[simp] theorem get_apply (s : σ) : (get : Run σ σ) s = .ok (s, s) := rfl

@[simp] theorem set_apply (s t : σ) : (set t : Run σ PUnit) s = .ok (⟨⟩, t) := rfl

@[simp] theorem ite_apply (c : Prop) [Decidable c] (m n : Run σ α) (s : σ) :
    (if c then m else n) s = if c then m s else n s := by
  split <;> rfl

@[simp] theorem lift_ok (a : α) : (lift (.ok a) : Run σ α) = pure a := rfl

@[simp] theorem lift_error (e : Stop) : (lift (.error e) : Run σ α) = stop e := rfl

theorem bind_apply (m : Run σ α) (f : α → Run σ β) (s : σ) :
    (m >>= f) s = match m s with
      | .error e => .error e
      | .ok (a, s') => f a s' := rfl

/-- Left identity. -/
@[simp] theorem pure_bind (a : α) (f : α → Run σ β) : (pure a : Run σ α) >>= f = f a := rfl

/-- A stop swallows what follows. -/
@[simp] theorem stop_bind (e : Stop) (f : α → Run σ β) :
    (stop e : Run σ α) >>= f = stop e := rfl

@[simp] theorem verify333_true : (verify333 true : Run σ PUnit) = pure ⟨⟩ := rfl

@[simp] theorem verify333_false : (verify333 false : Run σ PUnit) = stop .verify333 := rfl

theorem bind_ok {m : Run σ α} {f : α → Run σ β} {s s' : σ} {a : α}
    (hm : m s = .ok (a, s')) : (m >>= f) s = f a s' := by
  rw [bind_apply, hm]

theorem bind_error {m : Run σ α} {f : α → Run σ β} {s : σ} {e : Stop}
    (hm : m s = .error e) : (m >>= f) s = .error e := by
  rw [bind_apply, hm]

/-- Inversion for `bind`. -/
theorem bind_eq_ok {m : Run σ α} {f : α → Run σ β} {s s' : σ} {b : β}
    (h : (m >>= f) s = .ok (b, s')) :
    ∃ a s₁, m s = .ok (a, s₁) ∧ f a s₁ = .ok (b, s') := by
  rw [bind_apply] at h
  rcases hm : m s with e | ⟨a, s₁⟩
  · rw [hm] at h
    cases h
  · rw [hm] at h
    exact ⟨a, s₁, rfl, h⟩

/-- Inversion for `pure`. -/
theorem pure_eq_ok {a b : α} {s s' : σ} :
    (pure a : Run σ α) s = .ok (b, s') ↔ a = b ∧ s = s' := by
  rw [pure_apply, Except.ok.injEq, Prod.mk.injEq]

theorem bind_assoc {γ : Type v} (m : Run σ α) (f : α → Run σ β) (g : β → Run σ γ) :
    (m >>= f) >>= g = m >>= fun a => f a >>= g := by
  funext s
  rcases hm : m s with e | ⟨a, s₁⟩
  · rw [bind_error (bind_error hm), bind_error hm]
  · rw [bind_ok hm, bind_apply, bind_ok hm]
    rfl

/-- The laws of a monad hold of runs. -/
theorem lawful (σ : Type u) : LawfulMonad (Run σ : Type v → Type (max u v)) := by
  refine LawfulMonad.mk' (Run σ) (fun m => ?_) (fun _ _ => rfl) bind_assoc
  funext s
  have hmap : (id <$> m) s = (m >>= pure) s := rfl
  rw [hmap, bind_apply]
  rcases m s with e | ⟨a, s'⟩
  · rfl
  · rfl

/-- Introduction for `bind`: follow the first part, then the second. -/
theorem Returns.bind {m : Run σ α} {f : α → Run σ β} {s s₁ s₂ : σ} {a : α} {b : β}
    (hm : m.Returns s a s₁) (hf : (f a).Returns s₁ b s₂) : (m >>= f).Returns s b s₂ := by
  rw [Returns, bind_ok hm]
  exact hf

theorem Returns.pure (a : α) (s : σ) : (Pure.pure a : Run σ α).Returns s a s := rfl

/-- A run has one outcome. -/
theorem Returns.unique {m : Run σ α} {s s₁ s₂ : σ} {a b : α}
    (h₁ : m.Returns s a s₁) (h₂ : m.Returns s b s₂) : a = b ∧ s₁ = s₂ := by
  have h : (Except.ok (a, s₁) : Except Stop (α × σ)) = .ok (b, s₂) := h₁.symm.trans h₂
  simpa using h

/-- A checked condition that holds costs nothing. -/
theorem Returns.verify {exp : Bool} {f : PUnit → Run σ β} {s s' : σ} {b : β}
    (he : exp = true) (hf : (f ⟨⟩).Returns s b s') :
    (Run.verify333 exp >>= f).Returns s b s' := by
  subst he
  exact hf

/-- Run a computation on a part of a larger state. -/
def zoom {τ : Type u} (view : σ → τ) (update : τ → σ → σ) (m : Run τ α) : Run σ α := fun s =>
  match m (view s) with
  | .error e => .error e
  | .ok (a, t) => .ok (a, update t s)

theorem Returns.zoom {τ : Type u} {view : σ → τ} {update : τ → σ → σ} {m : Run τ α}
    {s : σ} {a : α} {t : τ} (h : m.Returns (view s) a t) :
    (Run.zoom view update m).Returns s a (update t s) := by
  unfold Returns at h
  simp only [Returns, Run.zoom, h]

end Run

/-! ## Allocation -/

/-- The verdicts of the coming `malloc` calls; past the end every call succeeds. -/
abbrev Schedule : Type := List Bool

/-- The verdict the next `malloc` gets. -/
def verdict : Schedule → Bool
  | [] => true
  | b :: _ => b

@[simp] theorem verdict_nil : verdict [] = true := rfl

/-- One `malloc`: consume the next verdict. -/
def malloc : Run Schedule Bool := fun s => .ok (verdict s, s.tail)

@[simp] theorem malloc_nil : malloc [] = .ok (true, []) := rfl

/-- The next `k` calls all succeed. -/
def served : ℕ → Schedule → Bool
  | 0, _ => true
  | k + 1, s => verdict s && served k s.tail

theorem served_nil (k : ℕ) : served k [] = true := by
  induction k with
  | zero => rfl
  | succ k ih => exact ih

/-- The verdicts that are left after the first of the next `k` calls that fails. -/
def pastRefused : ℕ → Schedule → Schedule
  | 0, s => s
  | k + 1, s => if verdict s then pastRefused k s.tail else s.tail

theorem malloc_apply (s : Schedule) : malloc s = .ok (verdict s, s.tail) := rfl

/-- With no failure scheduled, `malloc` succeeds. -/
theorem malloc_returns : malloc.Returns [] true [] := rfl

/-- `m ⇓ a` in words: with no allocation failing, `m` returns `a`. -/
abbrev Yields {α : Type} (m : Run Schedule α) (a : α) : Prop := m.Returns [] a []

end MultithreadedWebServer
