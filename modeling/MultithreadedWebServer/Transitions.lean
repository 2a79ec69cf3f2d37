import Mathlib.Data.Multiset.AddSub

/-!
# Transition systems, and a board of tasks

Two things that do not know each other. A `Machine` has a start and a partial step
function; an event that cannot happen leads nowhere, and one that ends the machine leads
to an error. `Reachable.invariant` is the rule for what holds in every reachable state.

A `Board` is what a pool of workers is for: tasks are submitted at one end, taken from
the other, and completed. `Board.Sound` says that nothing is lost, doubled or taken out
of turn, and every move keeps it.
-/

namespace MultithreadedWebServer

/-! ## Machines -/

/-- A transition system with states `σ`, events `ε` and failures `ξ`. -/
structure Machine (σ ε ξ : Type) where
  /-- where it starts -/
  start : σ
  /-- what an event leads to, if it can happen -/
  step : σ → ε → Option (Except ξ σ)

section Machine

variable {σ ε ξ : Type} {M : Machine σ ε ξ}

/-- What some sequence of events leads to. -/
inductive Machine.Reachable (M : Machine σ ε ξ) : σ → Prop where
  /-- nothing has happened yet -/
  | start : M.Reachable M.start
  /-- one more event -/
  | step {s s' : σ} (e : ε) : M.Reachable s → M.step s e = some (.ok s') → M.Reachable s'

/-- What holds at the start and is kept by every step holds in every reachable state. -/
theorem Machine.Reachable.invariant {inv : σ → Prop} (hstart : inv M.start)
    (hstep : ∀ s e s', inv s → M.step s e = some (.ok s') → inv s') {s : σ}
    (h : M.Reachable s) : inv s := by
  induction h with
  | start => exact hstart
  | step e _ hs ih => exact hstep _ e _ ih hs

/-- Where some events lead one after the other. -/
def Machine.after (M : Machine σ ε ξ) (s : σ) : List ε → Option σ
  | [] => some s
  | e :: es =>
    match M.step s e with
    | some (.ok s') => M.after s' es
    | _ => none

theorem Machine.Reachable.after {s s' : σ} {es : List ε} (h : M.Reachable s)
    (hes : M.after s es = some s') : M.Reachable s' := by
  induction es generalizing s with
  | nil =>
    obtain rfl := Option.some.inj hes
    exact h
  | cons e es ih =>
    rw [Machine.after] at hes
    split at hes
    · rename_i s₁ hstep
      exact ih (.step e h hstep) hes
    · cases hes

/-- Events that keep an invariant and use up a measure cannot go on for long. -/
theorem Machine.after_measure {inv : σ → Prop} {allowed : ε → Prop} {left : σ → ℕ}
    (hstep : ∀ s e s', inv s → allowed e → M.step s e = some (.ok s') →
      inv s' ∧ left s' < left s) :
    ∀ {es : List ε} {s s' : σ}, inv s → (∀ e ∈ es, allowed e) → M.after s es = some s' →
      inv s' ∧ es.length + left s' ≤ left s
  | [], s, s', h, _, hafter => by
    obtain rfl := Option.some.inj hafter
    exact ⟨h, (Nat.zero_add _).le⟩
  | e :: es, s, s', h, hes, hafter => by
    rw [Machine.after] at hafter
    split at hafter
    · rename_i s₁ hfirst
      obtain ⟨h₁, hless⟩ := hstep s e s₁ h (hes e List.mem_cons_self) hfirst
      obtain ⟨h', hle⟩ := Machine.after_measure hstep h₁
        (fun e' he' => hes e' (List.mem_cons_of_mem _ he')) hafter
      refine ⟨h', ?_⟩
      rw [List.length_cons]
      omega
    · cases hafter

end Machine

/-! ## Boards -/

/-- A board of tasks, with its history. -/
structure Board (Task : Type) where
  /-- the tasks that have been submitted, in order -/
  submitted : List Task
  /-- the tasks that wait, in order -/
  waiting : List Task
  /-- the tasks that have been taken, in order -/
  taken : List Task
  /-- the tasks that are being worked on -/
  inWork : Multiset Task
  /-- the tasks that have been completed -/
  completed : Multiset Task

section Board

variable {Task : Type}

/-- Nothing is lost or doubled, and tasks are taken in order. -/
structure Board.Sound (b : Board Task) : Prop where
  /-- first come, first served -/
  order : b.taken ++ b.waiting = b.submitted
  /-- what has been taken is in work or completed -/
  kept : (b.taken : Multiset Task) = b.inWork + b.completed

/-- What can happen on a board. -/
inductive Board.Move : Board Task → Board Task → Prop where
  /-- nothing -/
  | idle (b : Board Task) : Move b b
  /-- a task is submitted -/
  | submit (b : Board Task) (task : Task) :
    Move b { b with submitted := b.submitted ++ [task], waiting := b.waiting ++ [task] }
  /-- the next task is taken -/
  | take {b : Board Task} {task : Task} {rest : List Task} (h : b.waiting = task :: rest) :
    Move b { b with waiting := rest, taken := b.taken ++ [task], inWork := task ::ₘ b.inWork }
  /-- a task is completed -/
  | complete {b : Board Task} {task : Task} {others : Multiset Task}
    (h : b.inWork = task ::ₘ others) :
    Move b { b with inWork := others, completed := task ::ₘ b.completed }

theorem Board.sound_empty : Board.Sound (⟨[], [], [], 0, 0⟩ : Board Task) := ⟨rfl, rfl⟩

/-- Every move keeps a board sound. -/
theorem Board.Sound.move {b b' : Board Task} (h : b.Sound) (hm : Board.Move b b') : b'.Sound := by
  cases hm with
  | idle => exact h
  | submit task =>
    refine ⟨?_, h.kept⟩
    dsimp only
    rw [← List.append_assoc, h.order]
  | @take task rest hw =>
    have horder := h.order
    rw [hw] at horder
    refine ⟨?_, ?_⟩
    · dsimp only
      rw [← horder, List.append_assoc]
      rfl
    · dsimp only
      rw [← Multiset.coe_add, h.kept, Multiset.cons_add, Multiset.add_comm]
      rfl
  | @complete task others hw =>
    refine ⟨h.order, ?_⟩
    dsimp only
    rw [h.kept, hw, Multiset.cons_add, Multiset.add_cons]

/-- On a sound board every submitted task waits, is in work or is completed, once. -/
theorem Board.Sound.conserved {b : Board Task} (h : b.Sound) :
    (b.submitted : Multiset Task) = b.waiting + b.inWork + b.completed := by
  rw [← h.order, ← Multiset.coe_add, h.kept, Multiset.add_comm, Multiset.add_assoc]

end Board

end MultithreadedWebServer
