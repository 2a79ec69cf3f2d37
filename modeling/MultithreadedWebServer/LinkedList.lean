import Mathlib.Algebra.GroupWithZero.Nat
import Mathlib.Data.Int.Notation
import MultithreadedWebServer.Arena

/-!
# LinkedList.c: the doubly linked list and its iterator

The list record of `LinkedList_priv.h` together with the arena its nodes live in.
A node belongs to one list for its whole life, so every list carries its own arena;
an iterator holds an address of that arena, which is what makes "the node an
iterator stands on is freed under it" a statement (and a `fault`) here.

A payload is a value of an arbitrary type. Where the C code stores a pointer to a
record of its own in a node, the record itself is the payload, and the free
function passed by the caller has nothing left to do. List and iterator are passed
and returned explicitly; `iter->list` is the list argument.

`HWSize_t` counters are `ℕ` reduced by `u32` at every arithmetic step.
-/

namespace MultithreadedWebServer

/-- Reduction to `HWSize_t`, that is `uint32_t`. -/
def u32 (n : ℕ) : ℕ := n % 2 ^ 32

theorem u32_of_lt {n : ℕ} (h : n < 2 ^ 32) : u32 n = n := Nat.mod_eq_of_lt h

theorem u32_lt (n : ℕ) : u32 n < 2 ^ 32 := Nat.mod_lt _ (by decide)

/-- Conversion of an unsigned value to `int`. -/
def toInt (n : ℕ) : ℤ := Int.bmod n (2 ^ 32)

/-- `HWSize_t` subtraction. -/
def u32Sub (m n : ℕ) : ℕ := u32 (m + (2 ^ 32 - n))

theorem u32Sub_of_le {m n : ℕ} (h : n ≤ m) (hm : m < 2 ^ 32) : u32Sub m n = m - n := by
  unfold u32Sub u32
  omega

/-- `LinkedListHead`, with the arena of its `LinkedListNode`s. -/
structure LinkedList (α : Type) where
  /-- number of elements in the list -/
  numElements : ℕ
  /-- head of the list, or `NULL` if empty -/
  head : Ptr
  /-- tail of the list, or `NULL` if empty -/
  tail : Ptr
  /-- the nodes of this list -/
  nodes : Arena (Node α)
  deriving DecidableEq

/-- `LLIterSt`: the node the iterator is at, or `NULL` if broken. -/
structure LLIter where
  /-- the current node -/
  node : Ptr
  deriving DecidableEq

section Operations

variable {σ : Type} {α : Type}

/-- The empty list record. -/
def LinkedList.empty : LinkedList α := ⟨0, none, none, Arena.empty⟩

/-- `AllocateLinkedList`. -/
def allocateLinkedList : Run Schedule (Option (LinkedList α)) := do
  if ← malloc then return some LinkedList.empty else return none

/-- The sweep of `FreeLinkedList`: free the head until there is none. -/
def freeNodes : ℕ → Arena (Node α) → Ptr → Run σ PUnit
  | _, _, none => pure ⟨⟩
  | 0, _, some _ => Run.stop .diverges
  | fuel + 1, m, some a => do
    let node ← deref m (some a)
    let m ← release m (some a)
    freeNodes fuel m node.next

/-- `FreeLinkedList`; the record goes away, so nothing is returned. -/
def freeLinkedList (list : LinkedList α) : Run σ PUnit :=
  freeNodes list.nodes.fresh list.nodes list.head

/-- `NumElementsInLinkedList`. -/
def numElementsInLinkedList (list : LinkedList α) : ℕ := list.numElements

/-- `PushLinkedList`. -/
def pushLinkedList (list : LinkedList α) (payload : α) : Run Schedule (Bool × LinkedList α) := do
  if ← malloc then
    let ln := list.nodes.fresh
    if list.numElements = 0 then
      Run.verify333 (list.head = none)
      Run.verify333 (list.tail = none)
      return (true, ⟨1, some ln, some ln, list.nodes.alloc ⟨payload, none, none⟩⟩)
    else
      let nodes := list.nodes.alloc ⟨payload, list.head, none⟩
      let nodes ← store nodes list.head fun node => { node with prev := some ln }
      return (true, ⟨u32 (list.numElements + 1), some ln, list.tail, nodes⟩)
  else
    return (false, list)

/-- `PopLinkedList`; the payload is returned when there is one. -/
def popLinkedList (list : LinkedList α) : Run σ (Option α × LinkedList α) := do
  if list.numElements = 0 then
    return (none, list)
  else
    let popNode ← deref list.nodes list.head
    if list.numElements = 1 then
      let nodes ← release list.nodes list.head
      return (some popNode.payload, ⟨u32Sub list.numElements 1, none, none, nodes⟩)
    else
      let nodes ← store list.nodes popNode.next fun node => { node with prev := none }
      let nodes ← release nodes list.head
      return (some popNode.payload,
        ⟨u32Sub list.numElements 1, popNode.next, list.tail, nodes⟩)

/-- `AppendLinkedList`. -/
def appendLinkedList (list : LinkedList α) (payload : α) :
    Run Schedule (Bool × LinkedList α) := do
  if ← malloc then
    let ln := list.nodes.fresh
    if list.numElements = 0 then
      Run.verify333 (list.head = none)
      Run.verify333 (list.tail = none)
      return (true, ⟨1, some ln, some ln, list.nodes.alloc ⟨payload, none, none⟩⟩)
    else
      let nodes := list.nodes.alloc ⟨payload, none, list.tail⟩
      let nodes ← store nodes list.tail fun node => { node with next := some ln }
      return (true, ⟨u32 (list.numElements + 1), list.head, some ln, nodes⟩)
  else
    return (false, list)

/-- `SliceLinkedList`; the payload is returned when there is one. -/
def sliceLinkedList (list : LinkedList α) : Run σ (Option α × LinkedList α) := do
  if list.numElements = 0 then
    return (none, list)
  else
    let sliceNode ← deref list.nodes list.tail
    if list.numElements = 1 then
      let nodes ← release list.nodes list.tail
      return (some sliceNode.payload, ⟨u32Sub list.numElements 1, none, none, nodes⟩)
    else
      let nodes ← store list.nodes sliceNode.prev fun node => { node with next := none }
      let nodes ← release nodes list.tail
      return (some sliceNode.payload,
        ⟨u32Sub list.numElements 1, list.head, sliceNode.prev, nodes⟩)

/-- The condition under which a pass of `SortLinkedList` swaps two neighbours. -/
def sortSwaps (ascending : Bool) (comparator : α → α → ℤ) (x y : α) : Bool :=
  let compareResult := comparator x y
  let compareResult := if ascending then compareResult * -1 else compareResult
  compareResult < 0

/-- The inner `while` of `SortLinkedList`: one pass from `curnode` to the tail. -/
def sortPass (swaps : α → α → Bool) : ℕ → Arena (Node α) → Ptr → Bool →
    Run σ (Arena (Node α) × Bool)
  | 0, _, _, _ => Run.stop .diverges
  | fuel + 1, m, curnode, swapped => do
    let node ← deref m curnode
    if node.next = none then
      return (m, swapped)
    else
      let next ← deref m node.next
      if swaps node.payload next.payload then
        let m ← store m curnode fun n => { n with payload := next.payload }
        let m ← store m node.next fun n => { n with payload := node.payload }
        sortPass swaps fuel m node.next true
      else
        sortPass swaps fuel m node.next swapped

/-- The outer `do ... while (swapped)` of `SortLinkedList`. -/
def sortLoop (swaps : α → α → Bool) (head : Ptr) : ℕ → Arena (Node α) → Run σ (Arena (Node α))
  | 0, _ => Run.stop .diverges
  | fuel + 1, m => do
    let (m, swapped) ← sortPass swaps (m.fresh + 1) m head false
    if swapped then sortLoop swaps head fuel m else return m

/-- `SortLinkedList`: bubble sort on the payloads. -/
def sortLinkedList (list : LinkedList α) (ascending : Bool) (comparator : α → α → ℤ) :
    Run σ (LinkedList α) := do
  if list.numElements < 2 then
    return list
  else
    let n := list.numElements
    let nodes ← sortLoop (sortSwaps ascending comparator) list.head (n * n + 1) list.nodes
    return { list with nodes := nodes }

/-- `LLMakeIterator`; `pos` is 0 for the head and 1 for the tail. -/
def llMakeIterator (list : LinkedList α) (pos : ℕ) : Run Schedule (Option LLIter) := do
  Run.verify333 (pos = 0 ∨ pos = 1)
  if numElementsInLinkedList list = 0 then
    return none
  else if ← malloc then
    if pos = 0 then return some ⟨list.head⟩ else return some ⟨list.tail⟩
  else
    return none

/-- `LLIteratorHasNext`. -/
def llIteratorHasNext (list : LinkedList α) (iter : LLIter) : Run σ Bool := do
  Run.verify333 iter.node.isSome
  let node ← deref list.nodes iter.node
  return node.next.isSome

/-- `LLIteratorNext`. -/
def llIteratorNext (list : LinkedList α) (iter : LLIter) : Run σ (Bool × LLIter) := do
  Run.verify333 iter.node.isSome
  if ← llIteratorHasNext list iter then
    let node ← deref list.nodes iter.node
    return (true, ⟨node.next⟩)
  else
    return (false, iter)

/-- `LLIteratorHasPrev`. -/
def llIteratorHasPrev (list : LinkedList α) (iter : LLIter) : Run σ Bool := do
  Run.verify333 iter.node.isSome
  let node ← deref list.nodes iter.node
  return node.prev.isSome

/-- `LLIteratorPrev`. -/
def llIteratorPrev (list : LinkedList α) (iter : LLIter) : Run σ (Bool × LLIter) := do
  Run.verify333 iter.node.isSome
  if ← llIteratorHasPrev list iter then
    let node ← deref list.nodes iter.node
    return (true, ⟨node.prev⟩)
  else
    return (false, iter)

/-- `LLIteratorGetPayload`. -/
def llIteratorGetPayload (list : LinkedList α) (iter : LLIter) : Run σ α := do
  Run.verify333 iter.node.isSome
  let node ← deref list.nodes iter.node
  return node.payload

/-- A write through the record pointer that `LLIteratorGetPayload` handed out. -/
def llSetPayload (list : LinkedList α) (iter : LLIter) (payload : α) :
    Run σ (LinkedList α) := do
  let nodes ← store list.nodes iter.node fun node => { node with payload := payload }
  return { list with nodes := nodes }

/-- `LLIteratorDelete`. -/
def llIteratorDelete (list : LinkedList α) (iter : LLIter) :
    Run σ (Bool × LinkedList α × LLIter) := do
  Run.verify333 iter.node.isSome
  let node ← deref list.nodes iter.node
  if list.numElements = 1 then
    let nodes ← release list.nodes iter.node
    return (false, ⟨0, none, none, nodes⟩, ⟨none⟩)
  else if node.prev = none then
    -- the iterator points to the head
    let headNode ← deref list.nodes list.head
    let nodes ← store list.nodes headNode.next fun n => { n with prev := none }
    let nodes ← release nodes iter.node
    return (true, ⟨u32Sub list.numElements 1, headNode.next, list.tail, nodes⟩,
      ⟨headNode.next⟩)
  else if node.next = none then
    -- the iterator points to the tail
    let tailNode ← deref list.nodes list.tail
    let nodes ← store list.nodes tailNode.prev fun n => { n with next := none }
    let nodes ← release nodes iter.node
    return (true, ⟨u32Sub list.numElements 1, list.head, tailNode.prev, nodes⟩,
      ⟨tailNode.prev⟩)
  else
    let nodes ← store list.nodes node.next fun n => { n with prev := node.prev }
    let nodes ← store nodes node.prev fun n => { n with next := node.next }
    let nodes ← release nodes iter.node
    return (true, ⟨u32Sub list.numElements 1, list.head, list.tail, nodes⟩, ⟨node.next⟩)

/-- `LLIteratorInsertBefore`. -/
def llIteratorInsertBefore (list : LinkedList α) (iter : LLIter) (payload : α) :
    Run Schedule (Bool × LinkedList α) := do
  Run.verify333 iter.node.isSome
  if iter.node = list.head then
    pushLinkedList list payload
  else if ← malloc then
    let node ← deref list.nodes iter.node
    let newnode := list.nodes.fresh
    let nodes := list.nodes.alloc ⟨payload, iter.node, node.prev⟩
    let nodes ← store nodes node.prev fun n => { n with next := some newnode }
    let nodes ← store nodes iter.node fun n => { n with prev := some newnode }
    return (true, ⟨u32 (list.numElements + 1), list.head, list.tail, nodes⟩)
  else
    return (false, list)

end Operations

/-! ## The sequence a list stands for -/

/-- The list record represents the sequence `cs` of node addresses and payloads. -/
structure Repr {α : Type} (list : LinkedList α) (cs : List (Addr × α)) : Prop where
  /-- the nodes are doubly linked in order -/
  links : Links list.nodes none cs none
  /-- no node occurs twice -/
  nodup : (cs.map Prod.fst).Nodup
  /-- `head` is the first node -/
  head_eq : list.head = firstAddr cs none
  /-- `tail` is the last node -/
  tail_eq : list.tail = lastAddr cs none
  /-- `num_elements` is exact -/
  count : list.numElements = cs.length
  /-- and fits `HWSize_t` -/
  small : cs.length < 2 ^ 32

/-- Follow `next` from `p`, collecting at most `fuel` nodes. -/
def walk {α : Type} (m : Arena (Node α)) : ℕ → Ptr → List (Addr × α)
  | 0, _ => []
  | _ + 1, none => []
  | fuel + 1, some a =>
    match m.read a with
    | none => []
    | some node => (a, node.payload) :: walk m fuel node.next

/-- The nodes of a list, read off by following `next` from the head. -/
def LinkedList.cells {α : Type} (list : LinkedList α) : List (Addr × α) :=
  walk list.nodes list.numElements list.head

/-- The payloads of a list, in order. -/
def LinkedList.toList {α : Type} (list : LinkedList α) : List α := list.cells.map Prod.snd

/-- A list record is well formed: it represents what following `next` gives. -/
def LinkedList.WF {α : Type} (list : LinkedList α) : Prop := Repr list list.cells

section Spec

variable {σ : Type} {α : Type} {list : LinkedList α} {cs : List (Addr × α)}

theorem walk_of_links {m : Arena (Node α)} :
    ∀ {cs : List (Addr × α)} {p : Ptr}, Links m p cs none →
      walk m cs.length (firstAddr cs none) = cs
  | [], _, _ => rfl
  | (a, x) :: cs, p, h => by
    obtain ⟨hr, hcs⟩ := h
    simp only [List.length_cons, firstAddr_cons, walk, hr]
    rw [walk_of_links hcs]

/-- The represented sequence is unique: it is the one `next` leads through. -/
theorem Repr.cells_eq (h : Repr list cs) : list.cells = cs := by
  rw [LinkedList.cells, h.count, h.head_eq, walk_of_links h.links]

theorem Repr.toList_eq (h : Repr list cs) : list.toList = cs.map Prod.snd := by
  rw [LinkedList.toList, h.cells_eq]

theorem Repr.wf (h : Repr list cs) : list.WF := by
  rw [LinkedList.WF, h.cells_eq]
  exact h

theorem LinkedList.WF.numElements_eq (h : list.WF) : list.numElements = list.toList.length := by
  rw [LinkedList.toList, List.length_map]
  exact h.count

theorem repr_empty : Repr (LinkedList.empty : LinkedList α) [] :=
  ⟨trivial, List.nodup_nil, rfl, rfl, rfl, by simp⟩

/-- `AllocateLinkedList`, for every sequence of verdicts. -/
theorem allocateLinkedList_spec (s : Schedule) :
    (allocateLinkedList : Run Schedule (Option (LinkedList α))) s =
      .ok (if verdict s then some LinkedList.empty else none, s.tail) := by
  cases hs : verdict s <;> simp [allocateLinkedList, Run.bind_apply, malloc_apply, hs]

theorem allocateLinkedList_yields :
    Yields (allocateLinkedList : Run Schedule (Option (LinkedList α)))
      (some LinkedList.empty) := rfl

end Spec

end MultithreadedWebServer
