import Mathlib.Data.List.Nodup
import MultithreadedWebServer.Arena

/-!
# What a computation holds

An arena as a table of things that are opened and closed. `Opens m m' opened` says that the cells
`opened` are those that were opened on the way from `m` to `m'` and are still there, and that
nothing else has changed. This composes, and a cell that is freed is taken out of the list.
-/

namespace MultithreadedWebServer

universe u

/-- The cells that are there afterwards and were not there before. -/
structure Opens {β : Type u} (m m' : Arena β) (opened : List (Addr × β)) : Prop where
  /-- what was there before stays as it was -/
  kept : ∀ a b, m.read a = some b → m'.read a = some b
  /-- the others are these -/
  others : ∀ a b, m.read a = none → (m'.read a = some b ↔ (a, b) ∈ opened)
  /-- they were not there before -/
  fresh : ∀ p ∈ opened, m.read p.1 = none
  /-- and each is there once -/
  once : (opened.map Prod.fst).Nodup

section Books

variable {β : Type u} {m m₁ m₂ : Arena β} {opened more before after : List (Addr × β)}

theorem Opens.nothing (m : Arena β) : Opens m m [] where
  kept := fun _ _ h => h
  others := fun a b h => by
    rw [h]
    exact iff_of_false (fun heq => Option.some_ne_none _ heq.symm) List.not_mem_nil
  fresh := fun p hp => absurd hp List.not_mem_nil
  once := List.nodup_nil

/-- A cell that was opened is there. -/
theorem Opens.read (h : Opens m m₁ opened) {p : Addr × β} (hp : p ∈ opened) :
    m₁.read p.1 = some p.2 :=
  (h.others p.1 p.2 (h.fresh p hp)).mpr hp

/-- One computation after the other. -/
theorem Opens.trans (h : Opens m m₁ opened) (h' : Opens m₁ m₂ more) :
    Opens m m₂ (opened ++ more) where
  kept := fun a b hread => h'.kept a b (h.kept a b hread)
  others := fun a b hnone => by
    rw [List.mem_append]
    cases hread : m₁.read a with
    | none =>
      have hnot : (a, b) ∉ opened := fun hmem => by
        rw [h.read hmem] at hread
        cases hread
      rw [or_iff_right hnot]
      exact h'.others a b hread
    | some b₁ =>
      have hnot : (a, b) ∉ more := fun hmem => by
        rw [h'.fresh _ hmem] at hread
        cases hread
      rw [or_iff_left hnot, h'.kept a b₁ hread, ← hread]
      exact h.others a b hnone
  fresh := fun p hp => by
    rcases List.mem_append.mp hp with hp | hp
    · exact h.fresh p hp
    · cases hread : m.read p.1 with
      | none => rfl
      | some b =>
        rw [← h'.fresh p hp, ← hread]
        exact hread.trans (h.kept _ _ hread).symm
  once := by
    rw [List.map_append]
    refine List.nodup_append.mpr ⟨h.once, h'.once, fun a ha a' ha' heq => ?_⟩
    obtain ⟨p, hp, rfl⟩ := List.mem_map.mp ha
    obtain ⟨p', hp', rfl⟩ := List.mem_map.mp ha'
    have hread := h.read hp
    rw [heq, h'.fresh p' hp'] at hread
    cases hread

/-- A new cell. -/
theorem Opens.created (m : Arena β) (b : β) : Opens m (m.alloc b) [(m.fresh, b)] where
  kept := fun a b' hread => Arena.read_alloc_of_read hread
  others := fun a b' hnone => by
    rw [List.mem_singleton, Prod.mk.injEq]
    by_cases ha : a = m.fresh
    · rw [ha, Arena.read_alloc_self, Option.some.injEq, eq_comm, and_iff_right rfl]
    · rw [Arena.read_alloc_ne _ ha, hnone]
      exact iff_of_false (fun heq => Option.some_ne_none _ heq.symm) fun h => ha h.1
  fresh := fun p hp => by
    rw [List.mem_singleton.mp hp]
    exact m.read_fresh
  once := List.nodup_singleton _

/-- A change of the cell that was opened. -/
theorem Opens.change {a : Addr} {b : β} (h : Opens m m₁ [(a, b)]) (b' : β) :
    Opens m (m₁.write a b') [(a, b')] where
  kept := fun a' old hread => by
    have hne : a' ≠ a := by
      rintro rfl
      rw [h.fresh _ (List.mem_singleton_self _)] at hread
      cases hread
    rw [Arena.read_write_ne _ hne]
    exact h.kept a' old hread
  others := fun a' new hnone => by
    rw [List.mem_singleton, Prod.mk.injEq]
    by_cases ha : a' = a
    · rw [ha, Arena.read_write_self (h.read (List.mem_singleton_self _)), Option.some.injEq,
        eq_comm, and_iff_right rfl]
    · rw [Arena.read_write_ne _ ha, h.others a' new hnone, List.mem_singleton, Prod.mk.injEq]
      exact iff_of_false (fun hold => ha hold.1) fun hnew => ha hnew.1
  fresh := fun p hp => by
    rw [List.mem_singleton.mp hp]
    exact h.fresh (a, b) (List.mem_singleton_self _)
  once := List.nodup_singleton _

/-- A cell that was opened is closed. -/
theorem Opens.close {a : Addr} {b : β} (h : Opens m m₁ (before ++ (a, b) :: after)) :
    Opens m (m₁.free a) (before ++ after) := by
  have honce := h.once
  rw [List.map_append, List.map_cons, List.nodup_middle, List.nodup_cons, ← List.map_append]
    at honce
  have hmem : ∀ p, p ∈ before ++ (a, b) :: after ↔ p = (a, b) ∨ p ∈ before ++ after :=
    fun p => by rw [List.mem_append, List.mem_cons, List.mem_append, or_left_comm]
  constructor
  case kept =>
    intro a' old hread
    have hne : a' ≠ a := by
      rintro rfl
      rw [h.fresh _ ((hmem _).mpr (.inl rfl))] at hread
      cases hread
    rw [Arena.read_free_ne hne]
    exact h.kept a' old hread
  case others =>
    intro a' new hnone
    by_cases ha : a' = a
    · rw [ha, Arena.read_free_self]
      exact iff_of_false (fun heq => Option.some_ne_none _ heq.symm)
        fun hin => honce.1 (List.mem_map.mpr ⟨(a, new), ha ▸ hin, rfl⟩)
    · rw [Arena.read_free_ne ha, h.others a' new hnone, hmem, Prod.mk.injEq]
      exact or_iff_right fun heq => ha heq.1
  case fresh => exact fun p hp => h.fresh p ((hmem p).mpr (.inr hp))
  case once => exact honce.2

end Books

end MultithreadedWebServer
