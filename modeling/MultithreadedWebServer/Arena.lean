import Mathlib.Data.List.Perm.Subperm
import MultithreadedWebServer.Run

/-!
# Arenas of nodes and doubly linked chains

The pointer layer, with nothing of the repository in it.

* `Arena β` is a grow-only store: an address is a stable index, `alloc` appends a
  cell, and a freed cell stays behind as `none`. So an address is never handed out
  twice, and a dangling access is a `fault`.
* `Links m p cs n` says that the nodes `cs` are doubly linked in `m`, one after the
  other, entered from `p` and left towards `n`. It is the invariant all list
  operations are proved against: splitting (`links_append`), framing
  (`Links.congr`) and re-linking at either end (`Links.setPrev`, `Links.setNext`).
-/

namespace MultithreadedWebServer

universe u

/-! ## The arena -/

/-- An address in an arena. -/
abbrev Addr : Type := ℕ

/-- A pointer: `none` is `NULL`. -/
abbrev Ptr : Type := Option Addr

/-- A grow-only store of cells; `none` marks a freed cell. -/
structure Arena (β : Type u) where
  /-- the cells, by address -/
  cells : List (Option β)
  deriving DecidableEq

namespace Arena

variable {β : Type u}

/-- The arena nothing was allocated in. -/
def empty : Arena β := ⟨[]⟩

/-- The cell at `a`, unless it was never allocated or has been freed. -/
def read (m : Arena β) (a : Addr) : Option β := m.cells[a]?.join

/-- The address the next allocation gets. -/
def fresh (m : Arena β) : Addr := m.cells.length

/-- Allocate a cell at `fresh`. -/
def alloc (m : Arena β) (b : β) : Arena β := ⟨m.cells ++ [some b]⟩

/-- Overwrite the cell at `a`. -/
def write (m : Arena β) (a : Addr) (b : β) : Arena β := ⟨m.cells.set a (some b)⟩

/-- Free the cell at `a`. -/
def free (m : Arena β) (a : Addr) : Arena β := ⟨m.cells.set a none⟩

theorem lt_fresh {m : Arena β} {a : Addr} {b : β} (h : m.read a = some b) : a < m.fresh := by
  rcases Nat.lt_or_ge a m.cells.length with hlt | hge
  · exact hlt
  · rw [read, List.getElem?_eq_none hge] at h
    cases h

theorem read_fresh (m : Arena β) : m.read m.fresh = none := by
  rw [read, fresh, List.getElem?_eq_none (Nat.le_refl _)]
  rfl

@[simp] theorem read_alloc_self (m : Arena β) (b : β) : (m.alloc b).read m.fresh = some b := by
  simp [read, alloc, fresh]

theorem read_alloc_ne {m : Arena β} {a : Addr} (b : β) (h : a ≠ m.fresh) :
    (m.alloc b).read a = m.read a := by
  rcases Nat.lt_or_ge a m.cells.length with hlt | hge
  · simp only [read, alloc, List.getElem?_append_left hlt]
  · have hlt : m.cells.length < a := Nat.lt_of_le_of_ne hge (Ne.symm h)
    rw [read, read, alloc, List.getElem?_eq_none hge,
      List.getElem?_eq_none (by rw [List.length_append]; exact hlt)]

theorem read_alloc_of_read {m : Arena β} {a : Addr} {b c : β} (h : m.read a = some c) :
    (m.alloc b).read a = some c := by
  rw [read_alloc_ne b (Nat.ne_of_lt (lt_fresh h)), h]

theorem read_write_self {m : Arena β} {a : Addr} {b c : β} (h : m.read a = some c) :
    (m.write a b).read a = some b := by
  have hlt : a < m.cells.length := lt_fresh h
  simp [read, write, hlt]

theorem read_write_ne {m : Arena β} {a a' : Addr} (b : β) (h : a' ≠ a) :
    (m.write a b).read a' = m.read a' := by
  simp [read, write, List.getElem?_set_ne (Ne.symm h)]

theorem read_free_self (m : Arena β) (a : Addr) : (m.free a).read a = none := by
  rcases Nat.lt_or_ge a m.cells.length with hlt | hge
  · simp [read, free, hlt]
  · simp [read, free, hge]

theorem read_free_ne {m : Arena β} {a a' : Addr} (h : a' ≠ a) :
    (m.free a).read a' = m.read a' := by
  simp [read, free, List.getElem?_set_ne (Ne.symm h)]

@[simp] theorem fresh_alloc (m : Arena β) (b : β) : (m.alloc b).fresh = m.fresh + 1 := by
  simp [fresh, alloc]

@[simp] theorem fresh_write (m : Arena β) (a : Addr) (b : β) :
    (m.write a b).fresh = m.fresh := by
  simp [fresh, write]

@[simp] theorem fresh_free (m : Arena β) (a : Addr) : (m.free a).fresh = m.fresh := by
  simp [fresh, free]

end Arena

/-! ## Access through a pointer -/

section Access

variable {σ : Type} {β : Type}

/-- `*p`. -/
def deref (m : Arena β) (p : Ptr) : Run σ β :=
  match p.bind m.read with
  | some b => pure b
  | none => Run.stop .fault

/-- `*p = f(*p)`: one field of a cell is written through a pointer. -/
def store (m : Arena β) (p : Ptr) (f : β → β) : Run σ (Arena β) :=
  match p with
  | none => Run.stop .fault
  | some a =>
    match m.read a with
    | some b => pure (m.write a (f b))
    | none => Run.stop .fault

/-- `free(p)`; freeing twice is a fault, freeing `NULL` does nothing. -/
def release (m : Arena β) (p : Ptr) : Run σ (Arena β) :=
  match p with
  | none => pure m
  | some a => if (m.read a).isSome then pure (m.free a) else Run.stop .fault

theorem deref_some {m : Arena β} {a : Addr} {b : β} (h : m.read a = some b) :
    (deref m (some a) : Run σ β) = pure b := by
  simp [deref, h]

theorem deref_none {m : Arena β} {a : Addr} (h : m.read a = none) :
    (deref m (some a) : Run σ β) = Run.stop .fault := by
  simp [deref, h]

theorem store_some {m : Arena β} {a : Addr} {b : β} (f : β → β) (h : m.read a = some b) :
    (store m (some a) f : Run σ (Arena β)) = pure (m.write a (f b)) := by
  simp [store, h]

theorem release_some {m : Arena β} {a : Addr} {b : β} (h : m.read a = some b) :
    (release m (some a) : Run σ (Arena β)) = pure (m.free a) := by
  simp [release, h]

end Access

/-! ## Doubly linked chains -/

/-- A node of a doubly linked list. -/
structure Node (α : Type u) where
  /-- what the node carries -/
  payload : α
  /-- the next node, or `NULL` -/
  next : Ptr
  /-- the previous node, or `NULL` -/
  prev : Ptr
  deriving DecidableEq

/-- The address of the first cell of `cs`, or where `n` points when there is none. -/
def firstAddr {α : Type u} : List (Addr × α) → Ptr → Ptr
  | [], n => n
  | c :: _, _ => some c.1

/-- The address of the last cell of `cs`, or where `p` points when there is none. -/
def lastAddr {α : Type u} : List (Addr × α) → Ptr → Ptr
  | [], p => p
  | c :: cs, _ => lastAddr cs (some c.1)

/-- The nodes `cs` (address and payload) are linked in order, `p` before and `n`
after them. -/
def Links {α : Type u} (m : Arena (Node α)) : Ptr → List (Addr × α) → Ptr → Prop
  | _, [], _ => True
  | p, c :: cs, n => m.read c.1 = some ⟨c.2, firstAddr cs n, p⟩ ∧ Links m (some c.1) cs n

section Links

variable {α : Type u}

@[simp] theorem firstAddr_nil (n : Ptr) : firstAddr ([] : List (Addr × α)) n = n := rfl

@[simp] theorem firstAddr_cons (c : Addr × α) (cs : List (Addr × α)) (n : Ptr) :
    firstAddr (c :: cs) n = some c.1 := rfl

@[simp] theorem lastAddr_nil (p : Ptr) : lastAddr ([] : List (Addr × α)) p = p := rfl

@[simp] theorem lastAddr_cons (c : Addr × α) (cs : List (Addr × α)) (p : Ptr) :
    lastAddr (c :: cs) p = lastAddr cs (some c.1) := rfl

theorem firstAddr_append (cs ds : List (Addr × α)) (n : Ptr) :
    firstAddr (cs ++ ds) n = firstAddr cs (firstAddr ds n) := by
  cases cs <;> rfl

theorem lastAddr_append (cs ds : List (Addr × α)) (p : Ptr) :
    lastAddr (cs ++ ds) p = lastAddr ds (lastAddr cs p) := by
  induction cs generalizing p with
  | nil => rfl
  | cons c cs ih => exact ih (some c.1)

/-- The ends of a sequence depend on its addresses only. -/
theorem firstAddr_eq_of_addrs {cs ds : List (Addr × α)} (h : cs.map Prod.fst = ds.map Prod.fst)
    (n : Ptr) : firstAddr cs n = firstAddr ds n := by
  rcases cs with _ | ⟨c, cs⟩ <;> rcases ds with _ | ⟨d, ds⟩
  · rfl
  · cases h
  · cases h
  · exact congrArg some (List.cons.inj h).1

theorem lastAddr_eq_of_addrs {cs ds : List (Addr × α)} (h : cs.map Prod.fst = ds.map Prod.fst)
    (p : Ptr) : lastAddr cs p = lastAddr ds p := by
  induction cs generalizing ds p with
  | nil =>
    rcases ds with _ | ⟨d, ds⟩
    · rfl
    · cases h
  | cons c cs ih =>
    rcases ds with _ | ⟨d, ds⟩
    · cases h
    · obtain ⟨hcd, hrest⟩ := List.cons.inj h
      rw [lastAddr_cons, lastAddr_cons, hcd]
      exact ih hrest (some d.1)

theorem links_append {m : Arena (Node α)} {p n : Ptr} {cs ds : List (Addr × α)} :
    Links m p (cs ++ ds) n ↔ Links m p cs (firstAddr ds n) ∧ Links m (lastAddr cs p) ds n := by
  induction cs generalizing p with
  | nil => simp [Links]
  | cons c cs ih =>
    simp only [List.cons_append, Links, ih, firstAddr_append, lastAddr_cons, and_assoc]

/-- Every node of a chain is live, with its payload. -/
theorem Links.read_mem {m : Arena (Node α)} {p n : Ptr} {cs : List (Addr × α)}
    (h : Links m p cs n) {c : Addr × α} (hc : c ∈ cs) :
    ∃ nd, m.read c.1 = some nd ∧ nd.payload = c.2 := by
  induction cs generalizing p with
  | nil => cases hc
  | cons d cs ih =>
    obtain ⟨hd, hcs⟩ := h
    rcases List.mem_cons.mp hc with rfl | hc
    · exact ⟨_, hd, rfl⟩
    · exact ih hcs hc

/-- A chain depends only on the cells of its own nodes. -/
theorem Links.congr {m m' : Arena (Node α)} {p n : Ptr} {cs : List (Addr × α)}
    (h : Links m p cs n) (hm : ∀ a ∈ cs.map Prod.fst, m'.read a = m.read a) :
    Links m' p cs n := by
  induction cs generalizing p with
  | nil => trivial
  | cons c cs ih =>
    obtain ⟨hc, hcs⟩ := h
    refine ⟨?_, ih hcs fun a ha => hm a (List.mem_cons_of_mem _ ha)⟩
    rw [hm c.1 List.mem_cons_self, hc]

/-- The addresses of a chain lie below `fresh`. -/
theorem Links.lt_fresh {m : Arena (Node α)} {p n : Ptr} {cs : List (Addr × α)}
    (h : Links m p cs n) {a : Addr} (ha : a ∈ cs.map Prod.fst) : a < m.fresh := by
  obtain ⟨c, hc, rfl⟩ := List.mem_map.mp ha
  obtain ⟨nd, hnd, -⟩ := h.read_mem hc
  exact Arena.lt_fresh hnd

theorem Links.fresh_not_mem {m : Arena (Node α)} {p n : Ptr} {cs : List (Addr × α)}
    (h : Links m p cs n) : m.fresh ∉ cs.map Prod.fst :=
  fun hmem => Nat.lt_irrefl _ (h.lt_fresh hmem)

/-- Allocation elsewhere leaves a chain alone. -/
theorem Links.alloc {m : Arena (Node α)} {p n : Ptr} {cs : List (Addr × α)}
    (h : Links m p cs n) (nd : Node α) : Links (m.alloc nd) p cs n :=
  h.congr fun _ ha => Arena.read_alloc_ne nd (Nat.ne_of_lt (h.lt_fresh ha))

/-- A write outside the chain leaves it alone. -/
theorem Links.write {m : Arena (Node α)} {p n : Ptr} {cs : List (Addr × α)}
    (h : Links m p cs n) {a : Addr} (ha : a ∉ cs.map Prod.fst) (nd : Node α) :
    Links (m.write a nd) p cs n :=
  h.congr fun _ hb => Arena.read_write_ne nd fun he => ha (he ▸ hb)

/-- Freeing a node outside the chain leaves it alone. -/
theorem Links.free {m : Arena (Node α)} {p n : Ptr} {cs : List (Addr × α)}
    (h : Links m p cs n) {a : Addr} (ha : a ∉ cs.map Prod.fst) : Links (m.free a) p cs n :=
  h.congr fun _ hb => Arena.read_free_ne fun he => ha (he ▸ hb)

/-- Re-linking at the front: the first node's `prev` is what a chain is entered from. -/
theorem Links.setPrev {m : Arena (Node α)} {p q n : Ptr} {c : Addr × α}
    {cs : List (Addr × α)} (h : Links m p (c :: cs) n) (hc : c.1 ∉ cs.map Prod.fst) :
    ∃ nd, m.read c.1 = some nd ∧ Links (m.write c.1 { nd with prev := q }) q (c :: cs) n := by
  obtain ⟨hr, hcs⟩ := h
  exact ⟨_, hr, Arena.read_write_self hr, hcs.write hc _⟩

/-- Re-linking at the back: the last node's `next` is what a chain is left towards. -/
theorem Links.setNext {m : Arena (Node α)} {p n q : Ptr} {c : Addr × α}
    {cs : List (Addr × α)} (h : Links m p (cs ++ [c]) n) (hc : c.1 ∉ cs.map Prod.fst) :
    ∃ nd, m.read c.1 = some nd ∧ Links (m.write c.1 { nd with next := q }) p (cs ++ [c]) q := by
  obtain ⟨hcs, hr, -⟩ := links_append.mp h
  refine ⟨_, hr, links_append.mpr ⟨hcs.write hc _, ?_, trivial⟩⟩
  exact Arena.read_write_self hr

/-- A new payload in one node keeps the links. -/
theorem Links.setPayload {m : Arena (Node α)} {p n : Ptr} {pre post : List (Addr × α)} {a : Addr}
    {x : α} (h : Links m p (pre ++ (a, x) :: post) n)
    (hpre : a ∉ pre.map Prod.fst) (hpost : a ∉ post.map Prod.fst) (y : α) :
    ∃ nd, m.read a = some nd ∧
      Links (m.write a { nd with payload := y }) p (pre ++ (a, y) :: post) n := by
  obtain ⟨hl, hr, hrest⟩ := links_append.mp h
  refine ⟨_, hr, links_append.mpr ⟨?_, Arena.read_write_self hr, hrest.write hpost _⟩⟩
  exact hl.write hpre _

/-- The number of nodes of a chain is bounded by what was ever allocated. -/
theorem Links.length_le_fresh {m : Arena (Node α)} {p n : Ptr} {cs : List (Addr × α)}
    (h : Links m p cs n) (hnd : (cs.map Prod.fst).Nodup) : cs.length ≤ m.fresh := by
  have hsub : cs.map Prod.fst ⊆ List.range m.fresh := fun a ha =>
    List.mem_range.mpr (h.lt_fresh ha)
  have := (List.subperm_of_subset hnd hsub).length_le
  simpa using this

end Links

end MultithreadedWebServer
