import MultithreadedWebServer.ListRefine

/-!
# Sequences of calls on a linked list

The abstract side is a mathematical list, and a position in it while an iterator is
live. `Sequence.call` says what each call of the interface does to it and returns; the
list that no iterator walks over is pushed to, popped from, appended to and sliced, and
the one that an iterator walks over is changed through the iterator only. The concrete
side calls the functions of `LinkedList.c` in the same order.
-/

namespace MultithreadedWebServer

/-! ## A list with a cursor -/

/-- A call of the interface of `LinkedList.c`. -/
inductive ListCall (α : Type) where
  /-- `PushLinkedList` -/
  | push (payload : α)
  /-- `PopLinkedList` -/
  | pop
  /-- `AppendLinkedList` -/
  | append (payload : α)
  /-- `SliceLinkedList` -/
  | slice
  /-- `LLMakeIterator` -/
  | makeIterator (pos : ℕ)
  /-- `LLIteratorNext` -/
  | next
  /-- `LLIteratorPrev` -/
  | prev
  /-- `LLIteratorGetPayload` -/
  | getPayload
  /-- `LLIteratorDelete` -/
  | delete
  /-- `LLIteratorInsertBefore` -/
  | insertBefore (payload : α)
  /-- `LLIteratorFree` -/
  | free
  deriving DecidableEq

/-- What a call returns, and the payload that it writes through its argument if it does. -/
abbrev ListAnswer (α : Type) : Type := Bool × Option α

/-- A mathematical list, with a cursor or without. -/
inductive Sequence (α : Type) where
  /-- no iterator is live -/
  | idle (elems : List α)
  /-- the iterator is at `x` -/
  | cursor (pre : List α) (x : α) (post : List α)
  /-- the iterator is invalid, and the list empty -/
  | gone
  deriving DecidableEq

section Abstract

variable {α : Type}

/-- The elements of the list. -/
def Sequence.elems : Sequence α → List α
  | .idle elems => elems
  | .cursor pre x post => pre ++ x :: post
  | .gone => []

/-- What a call returns and does when no iterator is live; `none` for a call that is not
allowed then. -/
def idleCall (elems : List α) : ListCall α → Option (ListAnswer α × Sequence α)
  | .push x => some ((true, none), .idle (x :: elems))
  | .pop =>
    match elems with
    | [] => some ((false, none), .idle elems)
    | x :: rest => some ((true, some x), .idle rest)
  | .append x => some ((true, none), .idle (elems ++ [x]))
  | .slice =>
    match elems.getLast? with
    | none => some ((false, none), .idle elems)
    | some x => some ((true, some x), .idle elems.dropLast)
  | .makeIterator 0 =>
    match elems with
    | [] => some ((false, none), .idle elems)
    | x :: post => some ((true, none), .cursor [] x post)
  | .makeIterator 1 =>
    match elems.getLast? with
    | none => some ((false, none), .idle elems)
    | some x => some ((true, none), .cursor elems.dropLast x [])
  | _ => none

/-- What a call returns and does when the iterator is at `x`. -/
def cursorCall (pre : List α) (x : α) (post : List α) :
    ListCall α → Option (ListAnswer α × Sequence α)
  | .next =>
    match post with
    | [] => some ((false, none), .cursor pre x post)
    | y :: rest => some ((true, none), .cursor (pre ++ [x]) y rest)
  | .prev =>
    match pre.getLast? with
    | none => some ((false, none), .cursor pre x post)
    | some y => some ((true, none), .cursor pre.dropLast y (x :: post))
  | .getPayload => some ((true, some x), .cursor pre x post)
  | .delete =>
    match post, pre.getLast? with
    | y :: rest, _ => some ((true, none), .cursor pre y rest)
    | [], some y => some ((true, none), .cursor pre.dropLast y [])
    | [], none => some ((false, none), .gone)
  | .insertBefore y => some ((true, none), .cursor (pre ++ [y]) x post)
  | .free => some ((true, none), .idle (pre ++ x :: post))
  | _ => none

/-- What a call returns and does; an invalid iterator can be freed only. -/
def Sequence.call : Sequence α → ListCall α → Option (ListAnswer α × Sequence α)
  | .idle elems, c => idleCall elems c
  | .cursor pre x post, c => cursorCall pre x post c
  | .gone, .free => some ((true, none), .idle [])
  | .gone, _ => none

/-- A sequence of calls; `none` when one of them is not allowed, or makes the list longer
than an `HWSize_t` can count. -/
def Sequence.calls (s : Sequence α) : List (ListCall α) → Option (List (ListAnswer α) × Sequence α)
  | [] => some ([], s)
  | c :: cs =>
    match s.call c with
    | none => none
    | some (answer, s') =>
      if s'.elems.length < 2 ^ 32 then
        (s'.calls cs).map fun (answers, final) => (answer :: answers, final)
      else none

end Abstract

/-! ## The calls on the heap -/

/-- A list, and the iterator over it when there is one. -/
structure ListHandle (α : Type) where
  /-- the list -/
  list : LinkedList α
  /-- the iterator, or `NULL` -/
  iter : Option LLIter
  deriving DecidableEq

section Concrete

variable {σ : Type} {α : Type}

/-- `Verify333(iter != NULL)`. -/
def ListHandle.liveIter (h : ListHandle α) : Run σ LLIter :=
  match h.iter with
  | some iter => pure iter
  | none => Run.stop .verify333

/-- One call. -/
def listCall (h : ListHandle α) : ListCall α → Run Schedule (ListAnswer α × ListHandle α)
  | .push payload => do
    let (ok, list) ← pushLinkedList h.list payload
    return ((ok, none), { h with list := list })
  | .pop => do
    let (payload, list) ← popLinkedList h.list
    return ((payload.isSome, payload), { h with list := list })
  | .append payload => do
    let (ok, list) ← appendLinkedList h.list payload
    return ((ok, none), { h with list := list })
  | .slice => do
    let (payload, list) ← sliceLinkedList h.list
    return ((payload.isSome, payload), { h with list := list })
  | .makeIterator pos => do
    let iter ← llMakeIterator h.list pos
    return ((iter.isSome, none), { h with iter := iter })
  | .next => do
    let iter ← h.liveIter
    let (ok, iter) ← llIteratorNext h.list iter
    return ((ok, none), { h with iter := some iter })
  | .prev => do
    let iter ← h.liveIter
    let (ok, iter) ← llIteratorPrev h.list iter
    return ((ok, none), { h with iter := some iter })
  | .getPayload => do
    let iter ← h.liveIter
    let payload ← llIteratorGetPayload h.list iter
    return ((true, some payload), h)
  | .delete => do
    let iter ← h.liveIter
    let (ok, list, iter) ← llIteratorDelete h.list iter
    return ((ok, none), ⟨list, some iter⟩)
  | .insertBefore payload => do
    let iter ← h.liveIter
    let (ok, list) ← llIteratorInsertBefore h.list iter payload
    return ((ok, none), { h with list := list })
  | .free => do
    let _ ← h.liveIter
    return ((true, none), { h with iter := none })

/-- A sequence of calls. -/
def listCalls (h : ListHandle α) :
    List (ListCall α) → Run Schedule (List (ListAnswer α) × ListHandle α)
  | [] => return ([], h)
  | c :: cs => do
    let (answer, h) ← listCall h c
    let (answers, h) ← listCalls h cs
    return (answer :: answers, h)

end Concrete

/-! ## Well-formed heaps -/

/-- The heap structure of a list. -/
structure LinkedList.Shaped {α : Type} (list : LinkedList α) : Prop where
  /-- `head` is `NULL` exactly when the list is empty -/
  head_null : list.head = none ↔ list.numElements = 0
  /-- and so is `tail` -/
  tail_null : list.tail = none ↔ list.numElements = 0
  /-- `head->prev` is `NULL` -/
  head_prev : ∀ a, list.head = some a → ∃ node, list.nodes.read a = some node ∧ node.prev = none
  /-- `tail->next` is `NULL` -/
  tail_next : ∀ a, list.tail = some a → ∃ node, list.nodes.read a = some node ∧ node.next = none
  /-- following `next` from `head` there are `num_elements` nodes, different ones -/
  reach_count : list.cells.length = list.numElements ∧ (list.cells.map Prod.fst).Nodup
  /-- the last of which is `tail` -/
  reach_tail : list.cells.getLast?.map Prod.fst = list.tail
  /-- `prev` undoes `next` -/
  next_prev : ∀ a ∈ list.cells.map Prod.fst, ∀ node, list.nodes.read a = some node →
    ∀ b, node.next = some b → b ∈ list.cells.map Prod.fst ∧
      ∃ node', list.nodes.read b = some node' ∧ node'.prev = some a
  /-- `next` undoes `prev` -/
  prev_next : ∀ a ∈ list.cells.map Prod.fst, ∀ node, list.nodes.read a = some node →
    ∀ b, node.prev = some b → b ∈ list.cells.map Prod.fst ∧
      ∃ node', list.nodes.read b = some node' ∧ node'.next = some a

section Shape

variable {α : Type} {list : LinkedList α} {cs : List (Addr × α)}

/-- A cell of a list, with what comes before and after it. -/
theorem split_of_addr {a : Addr} (ha : a ∈ cs.map Prod.fst) :
    ∃ pre x post, cs = pre ++ (a, x) :: post := by
  obtain ⟨⟨b, x⟩, hmem, rfl⟩ := List.mem_map.mp ha
  obtain ⟨pre, post, hsplit⟩ := List.append_of_mem hmem
  exact ⟨pre, x, post, hsplit⟩

theorem lastAddr_eq_getLast? (cs : List (Addr × α)) :
    lastAddr cs none = cs.getLast?.map Prod.fst := by
  rcases List.eq_nil_or_concat' cs with rfl | ⟨cs, c, rfl⟩
  · rfl
  · rw [lastAddr_append, List.getLast?_append_cons, List.getLast?_singleton]
    rfl

theorem Repr.read_next (h : Repr list cs) {a b : Addr} {node : Node α}
    (ha : a ∈ cs.map Prod.fst) (hr : list.nodes.read a = some node) (hb : node.next = some b) :
    b ∈ cs.map Prod.fst ∧ ∃ node', list.nodes.read b = some node' ∧ node'.prev = some a := by
  obtain ⟨pre, x, post, rfl⟩ := split_of_addr ha
  obtain rfl := Option.some.inj (hr.symm.trans h.read_cursor)
  cases post with
  | nil => cases hb
  | cons c post =>
    obtain rfl := Option.some.inj hb
    have hsplit : pre ++ (a, x) :: c :: post = (pre ++ [(a, x)]) ++ (c.1, c.2) :: post := by simp
    have hnext := (hsplit ▸ h).read_cursor
    refine ⟨by simp, _, hnext, ?_⟩
    rw [lastAddr_append]
    rfl

theorem Repr.read_prev (h : Repr list cs) {a b : Addr} {node : Node α}
    (ha : a ∈ cs.map Prod.fst) (hr : list.nodes.read a = some node) (hb : node.prev = some b) :
    b ∈ cs.map Prod.fst ∧ ∃ node', list.nodes.read b = some node' ∧ node'.next = some a := by
  obtain ⟨pre, x, post, rfl⟩ := split_of_addr ha
  obtain rfl := Option.some.inj (hr.symm.trans h.read_cursor)
  rcases List.eq_nil_or_concat' pre with rfl | ⟨pre, c, rfl⟩
  · cases hb
  · rw [lastAddr_append] at hb
    obtain rfl := Option.some.inj hb
    have hsplit : (pre ++ [c]) ++ (a, x) :: post = pre ++ (c.1, c.2) :: (a, x) :: post := by simp
    have hprev := (hsplit ▸ h).read_cursor
    exact ⟨by simp, _, hprev, rfl⟩

/-- What represents a sequence is well formed. -/
theorem Repr.shaped (h : Repr list cs) : list.Shaped := by
  have hcells := h.cells_eq
  have hlast : list.tail = cs.getLast?.map Prod.fst := by rw [h.tail_eq, lastAddr_eq_getLast?]
  refine ⟨?_, ?_, fun a ha => ?_, fun a ha => ?_, ?_, ?_, ?_, ?_⟩
  · rw [h.head_eq, h.count]
    cases cs <;> simp
  · rw [hlast, h.count]
    simp
  · rw [h.head_eq] at ha
    cases cs with
    | nil => cases ha
    | cons c cs =>
      obtain rfl := Option.some.inj ha
      exact ⟨_, h.links.1, rfl⟩
  · rw [h.tail_eq] at ha
    rcases List.eq_nil_or_concat' cs with rfl | ⟨cs, c, rfl⟩
    · cases ha
    · rw [lastAddr_append] at ha
      obtain rfl := Option.some.inj ha
      exact ⟨_, Repr.read_cursor (x := c.2) h, rfl⟩
  · rw [hcells]
    exact ⟨h.count.symm, h.nodup⟩
  · rw [hcells, hlast]
  · rw [hcells]
    exact fun a ha node hr b hb => h.read_next ha hr hb
  · rw [hcells]
    exact fun a ha node hr b hb => h.read_prev ha hr hb

end Shape

/-! ## The refinement -/

/-- The heap stands for a list with a cursor. -/
inductive ListHandle.Represents {α : Type} : ListHandle α → Sequence α → Prop where
  /-- no iterator is live -/
  | idle {list : LinkedList α} {cs : List (Addr × α)} (h : Repr list cs) :
    Represents ⟨list, none⟩ (.idle (cs.map Prod.snd))
  /-- the iterator is at a node -/
  | cursor {list : LinkedList α} {pre post : List (Addr × α)} {a : Addr} {x : α}
    (h : Repr list (pre ++ (a, x) :: post)) :
    Represents ⟨list, some ⟨some a⟩⟩ (.cursor (pre.map Prod.snd) x (post.map Prod.snd))
  /-- the iterator is at no node -/
  | gone {list : LinkedList α} (h : Repr list []) : Represents ⟨list, some ⟨none⟩⟩ .gone

section Refine

variable {α : Type} {handle : ListHandle α} {s s' : Sequence α}

theorem ListHandle.Represents.shaped (h : handle.Represents s) :
    handle.list.Shaped ∧ handle.list.toList = s.elems := by
  cases h with
  | idle h => exact ⟨h.shaped, h.toList_eq⟩
  | cursor h => exact ⟨h.shaped, by rw [h.toList_eq, List.map_append]; rfl⟩
  | gone h => exact ⟨h.shaped, h.toList_eq⟩

/-- What a call that the abstract side answers has to do. -/
def Simulates (handle : ListHandle α) (c : ListCall α) (answer : ListAnswer α)
    (s' : Sequence α) : Prop :=
  ∃ handle', Yields (listCall handle c) (answer, handle') ∧ handle'.Represents s'

section Idle

variable {list : LinkedList α} {cs : List (Addr × α)} {answer : ListAnswer α}

theorem simulates_push (h : Repr list cs) (hlen : cs.length + 1 < 2 ^ 32) (x : α) :
    Simulates ⟨list, none⟩ (.push x) (true, none) (.idle (x :: cs.map Prod.snd)) := by
  obtain ⟨list', h', hrun⟩ := pushLinkedList_spec h hlen x
  exact ⟨⟨list', none⟩, (show Run.Returns _ _ _ _ from hrun []).bind (Run.Returns.pure _ _),
    .idle h'⟩

theorem simulates_append (h : Repr list cs) (hlen : cs.length + 1 < 2 ^ 32) (x : α) :
    Simulates ⟨list, none⟩ (.append x) (true, none) (.idle (cs.map Prod.snd ++ [x])) := by
  obtain ⟨list', h', hrun⟩ := appendLinkedList_spec h hlen x
  have hrepr := ListHandle.Represents.idle h'
  rw [List.map_append] at hrepr
  exact ⟨⟨list', none⟩, (show Run.Returns _ _ _ _ from hrun []).bind (Run.Returns.pure _ _), hrepr⟩

theorem simulates_pop (h : Repr list cs)
    (hc : idleCall (cs.map Prod.snd) .pop = some (answer, s')) :
    Simulates ⟨list, none⟩ .pop answer s' := by
  cases cs with
  | nil =>
    obtain ⟨rfl, rfl⟩ := Prod.mk.inj (Option.some.inj hc)
    have hrun : Yields (popLinkedList list) (none, list) := by rw [popLinkedList_empty h]; rfl
    exact ⟨⟨list, none⟩, hrun.bind (Run.Returns.pure _ _), .idle h⟩
  | cons c cs =>
    obtain ⟨rfl, rfl⟩ := Prod.mk.inj (Option.some.inj hc)
    obtain ⟨list', h', hpop⟩ := popLinkedList_spec (σ := Schedule) h
    have hrun : Yields (popLinkedList list) (some c.2, list') := by rw [hpop]; rfl
    exact ⟨⟨list', none⟩, hrun.bind (Run.Returns.pure _ _), .idle h'⟩

theorem simulates_slice (h : Repr list cs)
    (hc : idleCall (cs.map Prod.snd) .slice = some (answer, s')) :
    Simulates ⟨list, none⟩ .slice answer s' := by
  rcases List.eq_nil_or_concat' cs with rfl | ⟨pre, c, rfl⟩
  · obtain ⟨rfl, rfl⟩ := Prod.mk.inj (Option.some.inj hc)
    have hrun : Yields (sliceLinkedList list) (none, list) := by rw [sliceLinkedList_empty h]; rfl
    exact ⟨⟨list, none⟩, hrun.bind (Run.Returns.pure _ _), .idle h⟩
  · simp only [idleCall, List.map_append, List.map_cons, List.map_nil,
      List.getLast?_append_cons, List.getLast?_singleton, List.dropLast_concat] at hc
    obtain ⟨rfl, rfl⟩ := Prod.mk.inj (Option.some.inj hc)
    obtain ⟨list', h', hslice⟩ := sliceLinkedList_spec (σ := Schedule) (x := c.2) h
    have hrun : Yields (sliceLinkedList list) (some c.2, list') := by rw [hslice]; rfl
    exact ⟨⟨list', none⟩, hrun.bind (Run.Returns.pure _ _), .idle h'⟩

/-- An iterator at the head, if there is one. -/
theorem simulates_makeIterator_head (h : Repr list cs)
    (hc : idleCall (cs.map Prod.snd) (.makeIterator 0) = some (answer, s')) :
    Simulates ⟨list, none⟩ (.makeIterator 0) answer s' := by
  cases cs with
  | nil =>
    obtain ⟨rfl, rfl⟩ := Prod.mk.inj (Option.some.inj hc)
    have hrun : Yields (llMakeIterator list 0) none := llMakeIterator_empty h []
    exact ⟨⟨list, none⟩, hrun.bind (Run.Returns.pure _ _), .idle h⟩
  | cons c cs =>
    obtain ⟨rfl, rfl⟩ := Prod.mk.inj (Option.some.inj hc)
    have hrepr : Repr list ([] ++ (c.1, c.2) :: cs) := h
    exact ⟨⟨list, some ⟨some c.1⟩⟩, (llMakeIterator_yields h).bind (Run.Returns.pure _ _),
      .cursor hrepr⟩

/-- And at the tail. -/
theorem simulates_makeIterator_tail (h : Repr list cs)
    (hc : idleCall (cs.map Prod.snd) (.makeIterator 1) = some (answer, s')) :
    Simulates ⟨list, none⟩ (.makeIterator 1) answer s' := by
  rcases List.eq_nil_or_concat' cs with rfl | ⟨pre, c, rfl⟩
  · obtain ⟨rfl, rfl⟩ := Prod.mk.inj (Option.some.inj hc)
    have hn : list.numElements = 0 := h.count
    have hrun : Yields (llMakeIterator list 1) none := by
      simp [Run.Returns, llMakeIterator, numElementsInLinkedList, hn]
    exact ⟨⟨list, none⟩, hrun.bind (Run.Returns.pure _ _), .idle h⟩
  · simp only [idleCall, List.map_append, List.map_cons, List.map_nil,
      List.getLast?_append_cons, List.getLast?_singleton, List.dropLast_concat] at hc
    obtain ⟨rfl, rfl⟩ := Prod.mk.inj (Option.some.inj hc)
    have hrun : Yields (llMakeIterator list 1) (some ⟨some c.1⟩) :=
      llMakeIterator_tail_spec (x := c.2) h []
    exact ⟨⟨list, some ⟨some c.1⟩⟩, hrun.bind (Run.Returns.pure _ _), .cursor (x := c.2) h⟩

end Idle

section Cursor

variable {list : LinkedList α} {pre post : List (Addr × α)} {a : Addr} {x : α}
  {answer : ListAnswer α}

theorem simulates_next (h : Repr list (pre ++ (a, x) :: post))
    (hc : cursorCall (pre.map Prod.snd) x (post.map Prod.snd) .next =
      some (answer, s')) : Simulates ⟨list, some ⟨some a⟩⟩ .next answer s' := by
  have hnext := llIteratorNext_spec (σ := Schedule) h
  cases post with
  | nil =>
    obtain ⟨rfl, rfl⟩ := Prod.mk.inj (Option.some.inj hc)
    have hrun : Yields (llIteratorNext list ⟨some a⟩) (false, ⟨some a⟩) := by rw [hnext]; rfl
    exact ⟨⟨list, some ⟨some a⟩⟩, hrun.bind (Run.Returns.pure _ _), .cursor h⟩
  | cons c post =>
    obtain ⟨rfl, rfl⟩ := Prod.mk.inj (Option.some.inj hc)
    have hrun : Yields (llIteratorNext list ⟨some a⟩) (true, ⟨some c.1⟩) := by rw [hnext]; rfl
    have hsplit : pre ++ (a, x) :: c :: post = (pre ++ [(a, x)]) ++ (c.1, c.2) :: post := by simp
    have hrepr := ListHandle.Represents.cursor (hsplit ▸ h)
    rw [List.map_append] at hrepr
    exact ⟨⟨list, some ⟨some c.1⟩⟩, hrun.bind (Run.Returns.pure _ _), hrepr⟩

theorem simulates_prev (h : Repr list (pre ++ (a, x) :: post))
    (hc : cursorCall (pre.map Prod.snd) x (post.map Prod.snd) .prev =
      some (answer, s')) : Simulates ⟨list, some ⟨some a⟩⟩ .prev answer s' := by
  have hprev := llIteratorPrev_spec (σ := Schedule) h
  rcases List.eq_nil_or_concat' pre with rfl | ⟨pre, c, rfl⟩
  · obtain ⟨rfl, rfl⟩ := Prod.mk.inj (Option.some.inj hc)
    have hrun : Yields (llIteratorPrev list ⟨some a⟩) (false, ⟨some a⟩) := by rw [hprev]; rfl
    exact ⟨⟨list, some ⟨some a⟩⟩, hrun.bind (Run.Returns.pure _ _), .cursor h⟩
  · simp only [cursorCall, List.map_append, List.map_cons, List.map_nil,
      List.getLast?_append_cons, List.getLast?_singleton, List.dropLast_concat] at hc
    obtain ⟨rfl, rfl⟩ := Prod.mk.inj (Option.some.inj hc)
    have hrun : Yields (llIteratorPrev list ⟨some a⟩) (true, ⟨some c.1⟩) := by
      rw [hprev, lastAddr_append]
      simp [Run.Returns]
    have hsplit : (pre ++ [c]) ++ (a, x) :: post = pre ++ (c.1, c.2) :: (a, x) :: post := by simp
    exact ⟨⟨list, some ⟨some c.1⟩⟩, hrun.bind (Run.Returns.pure _ _),
      ListHandle.Represents.cursor (hsplit ▸ h)⟩

/-- The cursor goes to the successor, or the predecessor at the tail, or is lost with the
last element. -/
theorem simulates_delete (h : Repr list (pre ++ (a, x) :: post))
    (hc : cursorCall (pre.map Prod.snd) x (post.map Prod.snd) .delete =
      some (answer, s')) : Simulates ⟨list, some ⟨some a⟩⟩ .delete answer s' := by
  obtain ⟨list', h', hdelete⟩ := llIteratorDelete_spec (σ := Schedule) h
  cases post with
  | cons c post =>
    obtain ⟨rfl, rfl⟩ := Prod.mk.inj (Option.some.inj hc)
    have hrun : Yields (llIteratorDelete list ⟨some a⟩) (true, list', ⟨some c.1⟩) := by
      rw [hdelete]
      simp [Run.Returns]
    exact ⟨⟨list', some ⟨some c.1⟩⟩, hrun.bind (Run.Returns.pure _ _), .cursor (x := c.2) h'⟩
  | nil =>
    rcases List.eq_nil_or_concat' pre with rfl | ⟨pre, c, rfl⟩
    · obtain ⟨rfl, rfl⟩ := Prod.mk.inj (Option.some.inj hc)
      have hrun : Yields (llIteratorDelete list ⟨some a⟩) (false, list', ⟨none⟩) := by
        rw [hdelete]
        rfl
      exact ⟨⟨list', some ⟨none⟩⟩, hrun.bind (Run.Returns.pure _ _), .gone h'⟩
    · simp only [cursorCall, List.map_append, List.map_cons, List.map_nil,
        List.getLast?_append_cons, List.getLast?_singleton, List.dropLast_concat] at hc
      obtain ⟨rfl, rfl⟩ := Prod.mk.inj (Option.some.inj hc)
      have hrun : Yields (llIteratorDelete list ⟨some a⟩) (true, list', ⟨some c.1⟩) := by
        rw [hdelete, lastAddr_append]
        simp [Run.Returns]
      rw [List.append_nil] at h'
      exact ⟨⟨list', some ⟨some c.1⟩⟩, hrun.bind (Run.Returns.pure _ _), .cursor (x := c.2) h'⟩

/-- The cursor stays at its element. -/
theorem simulates_insertBefore (h : Repr list (pre ++ (a, x) :: post))
    (hlen : (pre ++ (a, x) :: post).length + 1 < 2 ^ 32) (y : α) :
    Simulates ⟨list, some ⟨some a⟩⟩ (.insertBefore y) (true, none)
      (.cursor (pre.map Prod.snd ++ [y]) x (post.map Prod.snd)) := by
  obtain ⟨list', h', hinsert⟩ := llIteratorInsertBefore_spec h hlen y
  have hrun : Yields (llIteratorInsertBefore list ⟨some a⟩ y) (true, list') := hinsert []
  have hsplit : pre ++ (list.nodes.fresh, y) :: (a, x) :: post =
      (pre ++ [(list.nodes.fresh, y)]) ++ (a, x) :: post := by simp
  have hrepr := ListHandle.Represents.cursor (hsplit ▸ h')
  rw [List.map_append] at hrepr
  exact ⟨⟨list', some ⟨some a⟩⟩, hrun.bind (Run.Returns.pure _ _), hrepr⟩

end Cursor

/-- One call: what the abstract side allows, the list does. -/
theorem listCall_simulates {c : ListCall α} {answer : ListAnswer α} (h : handle.Represents s)
    (hc : s.call c = some (answer, s')) (hlen : s'.elems.length < 2 ^ 32) :
    Simulates handle c answer s' := by
  cases h with
  | @idle list cs h =>
    cases c with
    | push x =>
      obtain ⟨rfl, rfl⟩ := Prod.mk.inj (Option.some.inj hc)
      exact simulates_push h (by simpa [Sequence.elems] using hlen) x
    | pop => exact simulates_pop h hc
    | append x =>
      obtain ⟨rfl, rfl⟩ := Prod.mk.inj (Option.some.inj hc)
      exact simulates_append h (by simpa [Sequence.elems] using hlen) x
    | slice => exact simulates_slice h hc
    | makeIterator pos =>
      match pos with
      | 0 => exact simulates_makeIterator_head h hc
      | 1 => exact simulates_makeIterator_tail h hc
      | _ + 2 => cases hc
    | _ => cases hc
  | @cursor list pre post a x h =>
    cases c with
    | next => exact simulates_next h hc
    | prev => exact simulates_prev h hc
    | getPayload =>
      obtain ⟨rfl, rfl⟩ := Prod.mk.inj (Option.some.inj hc)
      have hrun : Yields (llIteratorGetPayload list ⟨some a⟩) x := by
        rw [llIteratorGetPayload_spec h]
        rfl
      exact ⟨_, hrun.bind (Run.Returns.pure _ _), .cursor h⟩
    | delete => exact simulates_delete h hc
    | insertBefore y =>
      obtain ⟨rfl, rfl⟩ := Prod.mk.inj (Option.some.inj hc)
      refine simulates_insertBefore h ?_ y
      simp only [Sequence.elems, List.length_append, List.length_map, List.length_cons,
        List.length_nil] at hlen ⊢
      omega
    | free =>
      obtain ⟨rfl, rfl⟩ := Prod.mk.inj (Option.some.inj hc)
      have hrepr := ListHandle.Represents.idle h
      rw [List.map_append] at hrepr
      exact ⟨_, rfl, hrepr⟩
    | _ => cases hc
  | gone h =>
    cases c with
    | free =>
      obtain ⟨rfl, rfl⟩ := Prod.mk.inj (Option.some.inj hc)
      exact ⟨_, rfl, .idle h⟩
    | _ => cases hc

/-- A run of calls, from any list. -/
theorem listCalls_refine {calls : List (ListCall α)} {answers : List (ListAnswer α)}
    (h : handle.Represents s) (hc : s.calls calls = some (answers, s')) :
    ∃ handle', Yields (listCalls handle calls) (answers, handle') ∧ handle'.Represents s' := by
  induction calls generalizing handle s answers with
  | nil =>
    obtain ⟨rfl, rfl⟩ := Prod.mk.inj (Option.some.inj hc)
    exact ⟨handle, rfl, h⟩
  | cons c calls ih =>
    rw [Sequence.calls] at hc
    split at hc
    · cases hc
    · rename_i answer s₁ hcall
      split at hc
      · rename_i hlen
        obtain ⟨⟨answers', final⟩, hrest, heq⟩ := Option.map_eq_some_iff.mp hc
        obtain ⟨rfl, rfl⟩ := Prod.mk.inj heq
        obtain ⟨handle₁, hrun, h₁⟩ := listCall_simulates h hcall hlen
        obtain ⟨handle₂, hruns, h₂⟩ := ih h₁ hrest
        exact ⟨handle₂, hrun.bind (hruns.bind (Run.Returns.pure _ _)), h₂⟩
      · cases hc

/-- Every sequence of calls that the phases allow has, from the empty list, the effects and
answers of the list with a cursor, and the heap stays well formed. -/
theorem linked_list_refines_sequence {calls : List (ListCall α)} {answers : List (ListAnswer α)}
    (hc : (Sequence.idle []).calls calls = some (answers, s)) :
    ∃ handle, Yields (listCalls ⟨LinkedList.empty, none⟩ calls) (answers, handle) ∧
      handle.Represents s ∧ handle.list.Shaped ∧ handle.list.toList = s.elems := by
  obtain ⟨handle, hrun, h⟩ := listCalls_refine (.idle repr_empty) hc
  exact ⟨handle, hrun, h, h.shaped⟩

/-- Three elements; one is inserted, one deleted at the tail, and one sliced off. -/
theorem linked_list_refines_sequence_three : ∃ handle : ListHandle ℕ,
    Yields (listCalls ⟨LinkedList.empty, none⟩
      [.append 1, .append 2, .push 0, .makeIterator 1, .insertBefore 5, .delete, .free, .slice])
      ([(true, none), (true, none), (true, none), (true, none), (true, none), (true, none),
        (true, none), (true, some 5)], handle) ∧
      handle.list.Shaped ∧ handle.list.toList = [0, 1] := by
  have hcalls : (Sequence.idle ([] : List ℕ)).calls
      [.append 1, .append 2, .push 0, .makeIterator 1, .insertBefore 5, .delete, .free, .slice] =
      some ([(true, none), (true, none), (true, none), (true, none), (true, none), (true, none),
        (true, none), (true, some 5)], .idle [0, 1]) := rfl
  obtain ⟨handle, hrun, -, hshape⟩ := linked_list_refines_sequence hcalls
  exact ⟨handle, hrun, hshape⟩

end Refine

end MultithreadedWebServer
