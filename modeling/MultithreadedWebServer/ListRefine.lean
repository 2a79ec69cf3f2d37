import MultithreadedWebServer.BubbleSort
import MultithreadedWebServer.LinkedList

/-!
# The doubly linked list refines a sequence with a cursor

One lemma per operation of `LinkedList.c`. Against a represented sequence `cs` each
operation is the corresponding one on sequences, keeps the representation, and
leaves the addresses of the other nodes alone, so an iterator standing on another
node stays where it was. A cursor is a split `pre ++ (a, x) :: post`.
-/

namespace MultithreadedWebServer

section Refine

variable {σ : Type} {α : Type} {list : LinkedList α} {cs pre post : List (Addr × α)}
  {a : Addr} {x : α}

/-! ## Insertion at the ends -/

theorem Repr.cons {m : Arena (Node α)} {n : ℕ} {hd tl : Ptr} (h : Repr list cs)
    (hlen : cs.length + 1 < 2 ^ 32) (hn : n = cs.length + 1)
    (hhd : hd = some list.nodes.fresh) (htl : tl = lastAddr cs (some list.nodes.fresh))
    (hm : Links m none ((list.nodes.fresh, x) :: cs) none) :
    Repr ⟨n, hd, tl, m⟩ ((list.nodes.fresh, x) :: cs) where
  links := hm
  nodup := List.nodup_cons.mpr ⟨h.links.fresh_not_mem, h.nodup⟩
  head_eq := hhd
  tail_eq := htl
  count := hn
  small := hlen

/-- `PushLinkedList` prepends a fresh node, or reports that `malloc` failed. -/
theorem pushLinkedList_spec (h : Repr list cs) (hlen : cs.length + 1 < 2 ^ 32) (x : α) :
    ∃ list', Repr list' ((list.nodes.fresh, x) :: cs) ∧ ∀ s : Schedule,
      pushLinkedList list x s =
        .ok (if verdict s then (true, list') else (false, list), s.tail) := by
  rcases cs with _ | ⟨c, cs⟩
  · refine ⟨⟨1, some list.nodes.fresh, some list.nodes.fresh,
      list.nodes.alloc ⟨x, none, none⟩⟩, ?_, ?_⟩
    · exact h.cons hlen rfl rfl rfl ⟨Arena.read_alloc_self _ _, trivial⟩
    · intro s
      have hn : list.numElements = 0 := h.count
      have hh : list.head = none := h.head_eq
      have ht : list.tail = none := h.tail_eq
      cases hs : verdict s <;>
        simp [pushLinkedList, Run.bind_apply, malloc_apply, hs, hn, hh, ht]
  · obtain ⟨nd, hnd, hlinks⟩ :=
      (h.links.alloc ⟨x, list.head, none⟩).setPrev (q := some list.nodes.fresh)
        (List.nodup_cons.mp h.nodup).1
    refine ⟨⟨u32 (list.numElements + 1), some list.nodes.fresh, list.tail,
      (list.nodes.alloc ⟨x, list.head, none⟩).write c.1
        { nd with prev := some list.nodes.fresh }⟩, ?_, ?_⟩
    · refine h.cons hlen ?_ rfl h.tail_eq ⟨?_, hlinks⟩
      · rw [h.count, u32_of_lt hlen]
      · have hne : list.nodes.fresh ≠ c.1 := fun he =>
          h.links.fresh_not_mem (List.mem_map.mpr ⟨c, List.mem_cons_self, he.symm⟩)
        rw [Arena.read_write_ne _ hne, Arena.read_alloc_self, h.head_eq]
    · intro s
      have hn : list.numElements ≠ 0 := by rw [h.count]; simp
      have hh : list.head = some c.1 := h.head_eq
      rw [hh] at hnd
      cases hs : verdict s <;>
        simp [pushLinkedList, Run.bind_apply, malloc_apply, hs, hn, hh, store_some _ hnd]

/-- `AppendLinkedList` adds a fresh node at the tail, or reports that `malloc` failed. -/
theorem appendLinkedList_spec (h : Repr list cs) (hlen : cs.length + 1 < 2 ^ 32) (x : α) :
    ∃ list', Repr list' (cs ++ [(list.nodes.fresh, x)]) ∧ ∀ s : Schedule,
      appendLinkedList list x s =
        .ok (if verdict s then (true, list') else (false, list), s.tail) := by
  have hnodup : ((cs ++ [(list.nodes.fresh, x)]).map Prod.fst).Nodup := by
    rw [List.map_append]
    refine List.nodup_append.mpr ⟨h.nodup, List.pairwise_singleton _ _, fun b hb c hc he => ?_⟩
    obtain rfl : b = list.nodes.fresh := he.trans (List.mem_singleton.mp hc)
    exact h.links.fresh_not_mem hb
  rcases List.eq_nil_or_concat' cs with rfl | ⟨cs, c, rfl⟩
  · refine ⟨⟨1, some list.nodes.fresh, some list.nodes.fresh,
      list.nodes.alloc ⟨x, none, none⟩⟩, ?_, ?_⟩
    · exact ⟨⟨Arena.read_alloc_self _ _, trivial⟩, hnodup, rfl, rfl, rfl, hlen⟩
    · intro s
      have hn : list.numElements = 0 := h.count
      have hh : list.head = none := h.head_eq
      have ht : list.tail = none := h.tail_eq
      cases hs : verdict s <;>
        simp [appendLinkedList, Run.bind_apply, malloc_apply, hs, hn, hh, ht]
  · have hc : c.1 ∉ cs.map Prod.fst := by
      have hnd := h.nodup
      rw [List.map_append, List.nodup_append] at hnd
      exact fun hmem => hnd.2.2 _ hmem c.1 (by simp) rfl
    have ht : list.tail = some c.1 := by rw [h.tail_eq, lastAddr_append]; rfl
    obtain ⟨nd, hnd, hlinks⟩ :=
      (h.links.alloc ⟨x, none, list.tail⟩).setNext (q := some list.nodes.fresh) hc
    refine ⟨⟨u32 (list.numElements + 1), list.head, some list.nodes.fresh,
      (list.nodes.alloc ⟨x, none, list.tail⟩).write c.1
        { nd with next := some list.nodes.fresh }⟩, ?_, ?_⟩
    · refine ⟨links_append.mpr ⟨hlinks, ?_, trivial⟩, hnodup, ?_, ?_, ?_, ?_⟩
      · have hne : list.nodes.fresh ≠ c.1 := fun he =>
          h.links.fresh_not_mem (List.mem_map.mpr ⟨c, by simp, he.symm⟩)
        rw [Arena.read_write_ne _ hne, Arena.read_alloc_self, h.tail_eq]
        rfl
      · rw [h.head_eq, firstAddr_append, firstAddr_append, firstAddr_append]
        rfl
      · rw [lastAddr_append]
        rfl
      · rw [h.count, u32_of_lt hlen]
        simp
      · simpa using hlen
    · intro s
      have hn : list.numElements ≠ 0 := by rw [h.count]; simp
      rw [ht] at hnd
      cases hs : verdict s <;>
        simp [appendLinkedList, Run.bind_apply, malloc_apply, hs, hn, ht, store_some _ hnd]

/-! ## Iteration -/

/-- The node under a cursor. -/
theorem Repr.read_cursor (h : Repr list (pre ++ (a, x) :: post)) :
    list.nodes.read a = some ⟨x, firstAddr post none, lastAddr pre none⟩ :=
  (links_append.mp h.links).2.1

/-- The addresses on both sides of a cursor differ from it. -/
theorem Repr.cursor_not_mem (h : Repr list (pre ++ (a, x) :: post)) :
    a ∉ pre.map Prod.fst ∧ a ∉ post.map Prod.fst := by
  have hnd := h.nodup
  rw [List.map_append, List.map_cons, List.nodup_append] at hnd
  obtain ⟨-, hcons, hdis⟩ := hnd
  exact ⟨fun hmem => hdis a hmem a List.mem_cons_self rfl, (List.nodup_cons.mp hcons).1⟩

/-- `LLMakeIterator(list, 0)` on a non-empty list. -/
theorem llMakeIterator_spec {c : Addr × α} (h : Repr list (c :: cs)) (s : Schedule) :
    llMakeIterator list 0 s =
      .ok (if verdict s then some ⟨some c.1⟩ else none, s.tail) := by
  have hn : list.numElements ≠ 0 := by rw [h.count]; simp
  have hh : list.head = some c.1 := h.head_eq
  cases hs : verdict s <;>
    simp [llMakeIterator, numElementsInLinkedList, hn, Run.bind_apply, malloc_apply, hs, hh]

/-- `LLMakeIterator(list, 1)` on a non-empty list. -/
theorem llMakeIterator_tail_spec (h : Repr list (pre ++ [(a, x)])) (s : Schedule) :
    llMakeIterator list 1 s =
      .ok (if verdict s then some ⟨some a⟩ else none, s.tail) := by
  have hn : list.numElements ≠ 0 := by rw [h.count]; simp
  have ht : list.tail = some a := by rw [h.tail_eq, lastAddr_append]; rfl
  cases hs : verdict s <;>
    simp [llMakeIterator, numElementsInLinkedList, hn, Run.bind_apply, malloc_apply, hs, ht]

theorem llMakeIterator_yields {c : Addr × α} (h : Repr list (c :: cs)) :
    Yields (llMakeIterator list 0) (some ⟨some c.1⟩) :=
  llMakeIterator_spec h []

/-- On an empty list there is nothing to iterate over. -/
theorem llMakeIterator_empty (h : Repr list ([] : List (Addr × α))) (s : Schedule) :
    llMakeIterator list 0 s = .ok (none, s) := by
  have hn : list.numElements = 0 := h.count
  simp [llMakeIterator, numElementsInLinkedList, hn]

theorem llIteratorGetPayload_spec (h : Repr list (pre ++ (a, x) :: post)) :
    (llIteratorGetPayload list ⟨some a⟩ : Run σ α) = pure x := by
  simp [llIteratorGetPayload, deref_some h.read_cursor]

/-- `LLIteratorNext` moves right, and stays put at the tail. -/
theorem llIteratorNext_spec (h : Repr list (pre ++ (a, x) :: post)) :
    (llIteratorNext list ⟨some a⟩ : Run σ (Bool × LLIter)) =
      pure (decide (post ≠ []), ⟨firstAddr post (some a)⟩) := by
  rcases post with _ | ⟨c, post⟩ <;>
    simp [llIteratorNext, llIteratorHasNext, deref_some h.read_cursor]

/-- `LLIteratorPrev` moves left, and stays put at the head. -/
theorem llIteratorPrev_spec (h : Repr list (pre ++ (a, x) :: post)) :
    (llIteratorPrev list ⟨some a⟩ : Run σ (Bool × LLIter)) =
      pure (decide (pre ≠ []), ⟨lastAddr pre (some a)⟩) := by
  have hr := h.read_cursor
  rcases List.eq_nil_or_concat' pre with rfl | ⟨pre, b, rfl⟩
  · simp [llIteratorPrev, llIteratorHasPrev, deref_some hr]
  · have hlast (p : Ptr) : lastAddr (pre ++ [b]) p = some b.1 := by rw [lastAddr_append]; rfl
    simp [llIteratorPrev, llIteratorHasPrev, deref_some hr, hlast]

/-- A write through the payload pointer changes that payload only. -/
theorem llSetPayload_spec (h : Repr list (pre ++ (a, x) :: post)) (y : α) :
    ∃ list', Repr list' (pre ++ (a, y) :: post) ∧
      (llSetPayload list ⟨some a⟩ y : Run σ (LinkedList α)) = pure list' := by
  obtain ⟨hpre, hpost⟩ := h.cursor_not_mem
  obtain ⟨nd, hnd, hlinks⟩ := h.links.setPayload hpre hpost y
  refine ⟨{ list with nodes := list.nodes.write a { nd with payload := y } },
    ⟨hlinks, ?_, ?_, ?_, ?_, ?_⟩, ?_⟩
  · simpa using h.nodup
  · rw [h.head_eq, firstAddr_append, firstAddr_append]
    rfl
  · rw [h.tail_eq, lastAddr_append, lastAddr_append]
    rfl
  · simpa using h.count
  · simpa using h.small
  · simp [llSetPayload, store_some _ hnd]

/-! ## Deletion under the cursor -/

/-- The node before the cursor is not among those before it. -/
theorem Repr.before_not_mem {b : Addr × α} (h : Repr list (pre ++ [b] ++ (a, x) :: post)) :
    b.1 ∉ pre.map Prod.fst := by
  have hnd := h.nodup
  simp only [List.map_append, List.nodup_append] at hnd
  exact fun hmem => hnd.1.2.2 _ hmem _ (by simp) rfl

/-- The arena `LLIteratorDelete` leaves: both neighbours re-linked, the node freed. -/
theorem Repr.remove {m : Arena (Node α)} {n : ℕ} {hd tl : Ptr}
    (h : Repr list (pre ++ (a, x) :: post)) (hn : n = pre.length + post.length)
    (hhd : hd = firstAddr (pre ++ post) none) (htl : tl = lastAddr (pre ++ post) none)
    (hpre : Links m none pre (firstAddr post none))
    (hpost : Links m (lastAddr pre none) post none) :
    Repr ⟨n, hd, tl, m.free a⟩ (pre ++ post) := by
  obtain ⟨hapre, hapost⟩ := h.cursor_not_mem
  refine ⟨links_append.mpr ⟨hpre.free hapre, hpost.free hapost⟩, ?_, hhd, htl, ?_, ?_⟩
  · refine h.nodup.sublist (List.Sublist.map _ ?_)
    exact List.Sublist.append_left (List.sublist_cons_self _ _) pre
  · simp [hn]
  · have := h.small
    simp only [List.length_append, List.length_cons] at this ⊢
    omega

/-- The counter after a removal. -/
theorem Repr.count_remove (h : Repr list (pre ++ (a, x) :: post)) :
    list.numElements = pre.length + post.length + 1 ∧
      u32Sub list.numElements 1 = pre.length + post.length := by
  have hcount : list.numElements = pre.length + post.length + 1 := by
    rw [h.count, List.length_append, List.length_cons]
    omega
  have hsmall : list.numElements < 2 ^ 32 := h.count ▸ h.small
  refine ⟨hcount, ?_⟩
  rw [u32Sub_of_le (by omega) hsmall, hcount]
  rfl

/-- `LLIteratorDelete` of the only node. -/
theorem llIteratorDelete_only (h : Repr list [(a, x)]) :
    ∃ list', Repr list' ([] : List (Addr × α)) ∧
      (llIteratorDelete list ⟨some a⟩ : Run σ (Bool × LinkedList α × LLIter)) =
        pure (false, list', ⟨none⟩) := by
  have hsplit : Repr list ([] ++ (a, x) :: []) := h
  have hr : list.nodes.read a = some ⟨x, none, none⟩ := hsplit.read_cursor
  have hcount : list.numElements = 1 := h.count
  refine ⟨⟨0, none, none, list.nodes.free a⟩, hsplit.remove rfl rfl rfl trivial trivial, ?_⟩
  simp [llIteratorDelete, deref_some hr, hcount, release_some hr]

/-- `LLIteratorDelete` of the head of a longer list. -/
theorem llIteratorDelete_head {c : Addr × α} (h : Repr list ((a, x) :: c :: post)) :
    ∃ list', Repr list' (c :: post) ∧
      (llIteratorDelete list ⟨some a⟩ : Run σ (Bool × LinkedList α × LLIter)) =
        pure (true, list', ⟨some c.1⟩) := by
  have hsplit : Repr list ([] ++ (a, x) :: c :: post) := h
  have hr : list.nodes.read a = some ⟨x, some c.1, none⟩ := hsplit.read_cursor
  have hhd : list.head = some a := h.head_eq
  obtain ⟨-, hapost⟩ := hsplit.cursor_not_mem
  obtain ⟨-, -, hlpost⟩ := links_append.mp hsplit.links
  obtain ⟨nd, hnd, hlinks⟩ := hlpost.setPrev (q := none) (List.nodup_cons.mp
    (List.nodup_cons.mp h.nodup).2).1
  have hac : a ≠ c.1 := fun he => hapost (he ▸ List.mem_cons_self)
  have hr' : (list.nodes.write c.1 { nd with prev := none }).read a = _ :=
    (Arena.read_write_ne _ hac).trans hr
  refine ⟨⟨post.length + 1, some c.1, list.tail,
    (list.nodes.write c.1 { nd with prev := none }).free a⟩, ?_, ?_⟩
  · exact hsplit.remove (by simp) rfl h.tail_eq trivial hlinks
  · obtain ⟨hcount, hsub⟩ := hsplit.count_remove
    have hone : list.numElements ≠ 1 := by rw [hcount]; simp
    have hsub : u32Sub list.numElements 1 = post.length + 1 := by simpa using hsub
    simp [llIteratorDelete, deref_some hr, hhd, hone, store_some _ hnd, release_some hr', hsub]

/-- `LLIteratorDelete` of the tail of a longer list. -/
theorem llIteratorDelete_tail {b : Addr × α} (h : Repr list (pre ++ [b] ++ [(a, x)])) :
    ∃ list', Repr list' (pre ++ [b]) ∧
      (llIteratorDelete list ⟨some a⟩ : Run σ (Bool × LinkedList α × LLIter)) =
        pure (true, list', ⟨some b.1⟩) := by
  have hlast : lastAddr (pre ++ [b]) none = some b.1 := by rw [lastAddr_append]; rfl
  have hr : list.nodes.read a = some ⟨x, none, some b.1⟩ := by
    rw [h.read_cursor, hlast]
    rfl
  have htl : list.tail = some a := by rw [h.tail_eq, lastAddr_append]; rfl
  obtain ⟨hapre, -⟩ := h.cursor_not_mem
  obtain ⟨hlpre, -, -⟩ := links_append.mp h.links
  obtain ⟨nd, hnd, hlinks⟩ := hlpre.setNext (q := none) h.before_not_mem
  have hab : a ≠ b.1 := fun he => hapre (by simp [he])
  have hr' : (list.nodes.write b.1 { nd with next := none }).read a = _ :=
    (Arena.read_write_ne _ hab).trans hr
  refine ⟨⟨pre.length + 1, list.head, some b.1,
    (list.nodes.write b.1 { nd with next := none }).free a⟩, ?_, ?_⟩
  · rw [← List.append_nil (pre ++ [b])]
    refine h.remove (by simp) ?_ ?_ hlinks trivial
    · rw [h.head_eq, List.append_nil, firstAddr_append, firstAddr_append, firstAddr_append]
      rfl
    · rw [List.append_nil, hlast]
  · obtain ⟨hcount, hsub⟩ := h.count_remove
    have hone : list.numElements ≠ 1 := by rw [hcount]; simp
    have hsub : u32Sub list.numElements 1 = pre.length + 1 := by simpa using hsub
    simp [llIteratorDelete, deref_some hr, htl, hone, store_some _ hnd, release_some hr', hsub]

/-- `LLIteratorDelete` between two nodes: first `next->prev`, then `prev->next`. -/
theorem llIteratorDelete_between {b c : Addr × α}
    (h : Repr list (pre ++ [b] ++ (a, x) :: c :: post)) :
    ∃ list', Repr list' (pre ++ [b] ++ c :: post) ∧
      (llIteratorDelete list ⟨some a⟩ : Run σ (Bool × LinkedList α × LLIter)) =
        pure (true, list', ⟨some c.1⟩) := by
  have hlast : lastAddr (pre ++ [b]) none = some b.1 := by rw [lastAddr_append]; rfl
  have hr : list.nodes.read a = some ⟨x, some c.1, some b.1⟩ := by
    rw [h.read_cursor, hlast]
    rfl
  obtain ⟨hapre, hapost⟩ := h.cursor_not_mem
  obtain ⟨hlpre, -, hlpost⟩ := links_append.mp h.links
  have hab : a ≠ b.1 := fun he => hapre (by simp [he])
  have hac : a ≠ c.1 := fun he => hapost (he ▸ List.mem_cons_self)
  have hc : c.1 ∉ post.map Prod.fst := by
    have hnd := h.nodup.sublist (List.Sublist.map _ (List.sublist_append_right _ _))
    exact (List.nodup_cons.mp (List.nodup_cons.mp hnd).2).1
  have hdis : ∀ d ∈ (pre ++ [b]).map Prod.fst, ∀ e ∈ (c :: post).map Prod.fst, d ≠ e := by
    have hnd := h.nodup
    rw [List.map_append, List.nodup_append] at hnd
    exact fun d hd e he => hnd.2.2 d hd e (List.mem_cons_of_mem _ he)
  obtain ⟨nd, hnd, hlpost'⟩ := hlpost.setPrev (q := some b.1) hc
  have hlpre' : Links (list.nodes.write c.1 { nd with prev := some b.1 }) none (pre ++ [b])
      (some a) :=
    hlpre.write (fun hmem => hdis _ hmem c.1 (by simp) rfl) _
  obtain ⟨nd', hnd', hlpre''⟩ := hlpre'.setNext (q := some c.1) h.before_not_mem
  have hr' : ((list.nodes.write c.1 { nd with prev := some b.1 }).write b.1
      { nd' with next := some c.1 }).read a = _ :=
    (Arena.read_write_ne _ hab).trans ((Arena.read_write_ne _ hac).trans hr)
  refine ⟨⟨pre.length + 1 + (post.length + 1), list.head, list.tail,
    ((list.nodes.write c.1 { nd with prev := some b.1 }).write b.1
      { nd' with next := some c.1 }).free a⟩, ?_, ?_⟩
  · refine h.remove (by simp) ?_ ?_ hlpre'' ?_
    · rw [h.head_eq, firstAddr_append, firstAddr_append, firstAddr_append, firstAddr_append]
      rfl
    · rw [h.tail_eq, lastAddr_append, lastAddr_append (pre ++ [b])]
      rfl
    · rw [hlast]
      exact hlpost'.write (fun hmem => hdis b.1 (by simp) _ hmem rfl) _
  · obtain ⟨hcount, hsub⟩ := h.count_remove
    have hone : list.numElements ≠ 1 := by rw [hcount]; simp
    have hsub : u32Sub list.numElements 1 = pre.length + 1 + (post.length + 1) := by
      simpa using hsub
    simp [llIteratorDelete, deref_some hr, hone, store_some _ hnd, store_some _ hnd',
      release_some hr', hsub]

/-- `LLIteratorDelete` removes the node under the cursor; the cursor goes to the
successor, at the tail to the predecessor, and is invalidated (with result `false`)
when nothing is left. -/
theorem llIteratorDelete_spec (h : Repr list (pre ++ (a, x) :: post)) :
    ∃ list', Repr list' (pre ++ post) ∧
      (llIteratorDelete list ⟨some a⟩ : Run σ (Bool × LinkedList α × LLIter)) =
        pure (decide (pre ++ post ≠ []), list', ⟨firstAddr post (lastAddr pre none)⟩) := by
  rcases List.eq_nil_or_concat' pre with rfl | ⟨pre, b, rfl⟩
  · cases post with
    | nil => exact llIteratorDelete_only h
    | cons c post => exact llIteratorDelete_head h
  · have hlast : lastAddr (pre ++ [b]) none = some b.1 := by rw [lastAddr_append]; rfl
    cases post with
    | nil =>
      rw [List.append_nil, hlast, decide_eq_true (by simp)]
      exact llIteratorDelete_tail h
    | cons c post =>
      rw [decide_eq_true (by simp)]
      exact llIteratorDelete_between h

/-! ## Insertion before the cursor -/

/-- `LLIteratorInsertBefore` puts a fresh node before the one under the cursor, or reports
that `malloc` failed. -/
theorem llIteratorInsertBefore_spec (h : Repr list (pre ++ (a, x) :: post))
    (hlen : (pre ++ (a, x) :: post).length + 1 < 2 ^ 32) (y : α) :
    ∃ list', Repr list' (pre ++ (list.nodes.fresh, y) :: (a, x) :: post) ∧ ∀ s : Schedule,
      llIteratorInsertBefore list ⟨some a⟩ y s =
        .ok (if verdict s then (true, list') else (false, list), s.tail) := by
  rcases List.eq_nil_or_concat' pre with rfl | ⟨pre, b, rfl⟩
  · -- the cursor is at the head
    have hhd : list.head = some a := h.head_eq
    obtain ⟨list', h', hrun⟩ := pushLinkedList_spec h hlen y
    refine ⟨list', h', fun s => ?_⟩
    rw [← hrun s]
    simp [llIteratorInsertBefore, hhd]
  · have hr := h.read_cursor
    have hlast : lastAddr (pre ++ [b]) none = some b.1 := by rw [lastAddr_append]; rfl
    obtain ⟨hapre, hapost⟩ := h.cursor_not_mem
    obtain ⟨hlpre, -, hlpost⟩ := links_append.mp h.links
    have hfresh := h.links.fresh_not_mem
    have hab : a ≠ b.1 := fun he => hapre (by simp [he])
    have hbmem : b.1 ∈ ((pre ++ [b]) ++ (a, x) :: post).map Prod.fst := by simp
    have hamem : a ∈ ((pre ++ [b]) ++ (a, x) :: post).map Prod.fst := by simp
    have hafresh : list.nodes.fresh ≠ a := fun he => hfresh (he ▸ hamem)
    have hbfresh : list.nodes.fresh ≠ b.1 := fun he => hfresh (he ▸ hbmem)
    have hbpost : b.1 ∉ post.map Prod.fst := by
      have hnd := h.nodup
      rw [List.map_append, List.nodup_append] at hnd
      exact fun hmem => hnd.2.2 b.1 (by simp) _ (List.mem_cons_of_mem _ hmem) rfl
    have hbcons : b.1 ∉ ((a, x) :: post).map Prod.fst := by simp [Ne.symm hab, hbpost]
    -- first `newnode->prev->next`, then `newnode->next->prev`, as the source does
    obtain ⟨nd, hnd, hlpre'⟩ := (hlpre.alloc ⟨y, some a, some b.1⟩).setNext
      (q := some list.nodes.fresh) h.before_not_mem
    have hlcur : Links ((list.nodes.alloc ⟨y, some a, some b.1⟩).write b.1
        { nd with next := some list.nodes.fresh }) (some b.1) ((a, x) :: post) none :=
      (Links.alloc (hlast ▸ (links_append.mp h.links).2) _).write hbcons _
    obtain ⟨nd', hnd', hlcur'⟩ := hlcur.setPrev (q := some list.nodes.fresh) hapost
    have hnew : (((list.nodes.alloc ⟨y, some a, some b.1⟩).write b.1
        { nd with next := some list.nodes.fresh }).write a
          { nd' with prev := some list.nodes.fresh }).read list.nodes.fresh =
        some ⟨y, some a, some b.1⟩ := by
      rw [Arena.read_write_ne _ hafresh, Arena.read_write_ne _ hbfresh, Arena.read_alloc_self]
    refine ⟨⟨u32 (list.numElements + 1), list.head, list.tail, _⟩,
      ⟨links_append.mpr ⟨hlpre'.write hapre _, ?_, hlcur'⟩, ?_, ?_, ?_, ?_, ?_⟩, fun s => ?_⟩
    · rw [hlast]
      exact hnew
    · have hnodup := h.nodup
      rw [List.map_append] at hfresh hnodup ⊢
      exact List.perm_middle.nodup_iff.mpr (List.nodup_cons.mpr ⟨hfresh, hnodup⟩)
    · rw [h.head_eq, firstAddr_append, firstAddr_append, firstAddr_append, firstAddr_append]
      rfl
    · rw [h.tail_eq, lastAddr_append, lastAddr_append (pre ++ [b])]
      rfl
    · rw [h.count, u32_of_lt hlen]
      simp
      omega
    · simp only [List.length_append, List.length_cons] at hlen ⊢
      omega
    · have hhd : list.head ≠ some a := by
        rw [h.head_eq, firstAddr_append, firstAddr_append]
        intro he
        rcases pre with _ | ⟨d, pre⟩
        · exact hab (Option.some.inj he).symm
        · exact hapre (by simp [← Option.some.inj he])
      rw [hlast] at hr
      cases hs : verdict s
      · simp [llIteratorInsertBefore, Run.bind_apply, malloc_apply, hs, Ne.symm hhd]
      · simp [llIteratorInsertBefore, Run.bind_apply, malloc_apply, hs, Ne.symm hhd,
          deref_some hr, store_some _ hnd, store_some _ hnd']
        rfl

/-! ## Removal at the ends, and freeing -/

/-- `PopLinkedList` on a non-empty list. -/
theorem popLinkedList_spec (h : Repr list ((a, x) :: cs)) :
    ∃ list', Repr list' cs ∧
      (popLinkedList list : Run σ (Option α × LinkedList α)) = pure (some x, list') := by
  have h₀ : Repr list ([] ++ (a, x) :: cs) := h
  have hr := h₀.read_cursor
  have hhd : list.head = some a := h.head_eq
  have hz : list.numElements ≠ 0 := by rw [h.count]; simp
  have hsub : u32Sub list.numElements 1 = cs.length := by
    rw [u32Sub_of_le (by omega) (h.count ▸ h.small), h.count]
    rfl
  obtain ⟨-, hapost⟩ := h₀.cursor_not_mem
  rcases cs with _ | ⟨c, cs⟩
  · have hone : list.numElements = 1 := h.count
    refine ⟨⟨0, none, none, list.nodes.free a⟩, ?_, ?_⟩
    · exact h₀.remove rfl rfl rfl trivial trivial
    · simp [popLinkedList, deref_some hr, hhd, hone, release_some hr, u32Sub, u32]
  · obtain ⟨nd, hnd, hlinks⟩ := h.links.2.setPrev (q := none) (List.nodup_cons.mp
      (List.nodup_cons.mp h.nodup).2).1
    have hac : a ≠ c.1 := fun he => hapost (he ▸ List.mem_cons_self)
    have hr' : (list.nodes.write c.1 { nd with prev := none }).read a = _ :=
      (Arena.read_write_ne _ hac).trans hr
    refine ⟨⟨cs.length + 1, some c.1, list.tail,
      (list.nodes.write c.1 { nd with prev := none }).free a⟩, ?_, ?_⟩
    · exact h₀.remove (by simp) rfl h.tail_eq trivial hlinks
    · have hone : list.numElements ≠ 1 := by rw [h.count]; simp
      have hsub : u32Sub list.numElements 1 = cs.length + 1 := hsub
      simp [popLinkedList, deref_some hr, hhd, hz, hone, store_some _ hnd, release_some hr', hsub]

/-- There is nothing to pop from an empty list. -/
theorem popLinkedList_empty (h : Repr list ([] : List (Addr × α))) :
    (popLinkedList list : Run σ (Option α × LinkedList α)) = pure (none, list) := by
  have hn : list.numElements = 0 := h.count
  simp [popLinkedList, hn]

/-- `SliceLinkedList` on a non-empty list. -/
theorem sliceLinkedList_spec (h : Repr list (pre ++ [(a, x)])) :
    ∃ list', Repr list' pre ∧
      (sliceLinkedList list : Run σ (Option α × LinkedList α)) = pure (some x, list') := by
  have hr := h.read_cursor
  have htl : list.tail = some a := by rw [h.tail_eq, lastAddr_append]; rfl
  have hcount : list.numElements = pre.length + 1 := by rw [h.count]; simp
  have hsub : u32Sub list.numElements 1 = pre.length := by
    rw [u32Sub_of_le (by omega) (h.count ▸ h.small), hcount]
    rfl
  obtain ⟨hapre, -⟩ := h.cursor_not_mem
  obtain ⟨hlpre, -, -⟩ := links_append.mp h.links
  rcases List.eq_nil_or_concat' pre with rfl | ⟨pre, b, rfl⟩
  · refine ⟨⟨0, none, none, list.nodes.free a⟩, ?_, ?_⟩
    · exact h.remove rfl rfl rfl trivial trivial
    · have hone : list.numElements = 1 := hcount
      simp [sliceLinkedList, deref_some hr, htl, hone, release_some hr, u32Sub, u32]
  · have hb : b.1 ∉ pre.map Prod.fst := by
      have hnd := h.nodup
      simp only [List.map_append, List.nodup_append] at hnd
      exact fun hmem => hnd.1.2.2 _ hmem _ (by simp) rfl
    have hab : a ≠ b.1 := fun he => hapre (by simp [he])
    have hlast : lastAddr (pre ++ [b]) none = some b.1 := by rw [lastAddr_append]; rfl
    obtain ⟨nd, hnd, hlinks⟩ := hlpre.setNext (q := none) hb
    have hr' : (list.nodes.write b.1 { nd with next := none }).read a = _ :=
      (Arena.read_write_ne _ hab).trans hr
    have hrepr : Repr ⟨(pre ++ [b]).length, list.head, some b.1,
        (list.nodes.write b.1 { nd with next := none }).free a⟩ ((pre ++ [b]) ++ []) := by
      refine h.remove rfl ?_ ?_ hlinks trivial
      · rw [h.head_eq, List.append_nil, firstAddr_append, firstAddr_append, firstAddr_append]
        rfl
      · rw [List.append_nil, hlast]
    rw [List.append_nil] at hrepr
    refine ⟨_, hrepr, ?_⟩
    have hz : list.numElements ≠ 0 := by rw [hcount]; simp
    have hone : list.numElements ≠ 1 := by rw [hcount]; simp
    simp only [hlast] at hr hr'
    simp only [sliceLinkedList, hz, hone, htl, deref_some hr, store_some _ hnd, release_some hr',
      hsub, if_false, Run.pure_bind]

/-- Nor to slice from it. -/
theorem sliceLinkedList_empty (h : Repr list ([] : List (Addr × α))) :
    (sliceLinkedList list : Run σ (Option α × LinkedList α)) = pure (none, list) := by
  have hn : list.numElements = 0 := h.count
  simp [sliceLinkedList, hn]

/-- Freeing a chain node by node reaches its end. -/
theorem freeNodes_spec : ∀ {cs : List (Addr × α)} {m : Arena (Node α)} {p : Ptr} (fuel : ℕ),
    Links m p cs none → (cs.map Prod.fst).Nodup → cs.length ≤ fuel →
      (freeNodes fuel m (firstAddr cs none) : Run σ PUnit) = pure ⟨⟩
  | [], _, _, _, _, _, _ => by simp [freeNodes]
  | (a, x) :: cs, m, p, fuel + 1, h, hnd, hlen => by
    obtain ⟨hr, hcs⟩ := h
    obtain ⟨ha, hnd⟩ := List.nodup_cons.mp hnd
    have hrest := freeNodes_spec fuel (hcs.free ha) hnd (Nat.le_of_succ_le_succ hlen)
    simp [freeNodes, deref_some hr, release_some hr, hrest]

/-- `FreeLinkedList` on a represented list touches only live nodes and ends. -/
theorem freeLinkedList_spec (h : Repr list cs) : (freeLinkedList list : Run σ PUnit) = pure ⟨⟩ := by
  rw [freeLinkedList, h.head_eq]
  exact freeNodes_spec _ h.links h.nodup (h.links.length_le_fresh h.nodup)

/-! ## Sorting -/

/-- One pass of `SortLinkedList` is one bubble pass on the payloads; the nodes keep
their places. -/
theorem sortPass_spec (swaps : α → α → Bool) : ∀ {cs pre : List (Addr × α)} {a : Addr} {x : α}
    {m : Arena (Node α)} (fuel : ℕ) (b : Bool), Links m none (pre ++ (a, x) :: cs) none →
      ((pre ++ (a, x) :: cs).map Prod.fst).Nodup → cs.length < fuel →
      ∃ m' cs', (sortPass swaps fuel m (some a) b : Run σ (Arena (Node α) × Bool)) =
          pure (m', b || (bubblePass swaps (x :: cs.map Prod.snd)).2) ∧
        Links m' none (pre ++ cs') none ∧ cs'.map Prod.fst = a :: cs.map Prod.fst ∧
        cs'.map Prod.snd = (bubblePass swaps (x :: cs.map Prod.snd)).1 ∧ m'.fresh = m.fresh
  | [], pre, a, x, m, fuel + 1, b, h, _, _ => by
    have hr : m.read a = some ⟨x, none, lastAddr pre none⟩ := (links_append.mp h).2.1
    exact ⟨m, [(a, x)], by simp [sortPass, deref_some hr, bubblePass], h, rfl,
      by simp [bubblePass], rfl⟩
  | (c, y) :: cs, pre, a, x, m, fuel + 1, b, h, hnd, hlen => by
    have hr : m.read a = some ⟨x, some c, lastAddr pre none⟩ := (links_append.mp h).2.1
    have hrc : m.read c = some ⟨y, firstAddr cs none, some a⟩ := (links_append.mp h).2.2.1
    have hsplit : ∀ z : α, pre ++ (a, z) :: (c, y) :: cs = (pre ++ [(a, z)]) ++ (c, y) :: cs := by
      simp
    have haddr := hnd
    simp only [List.map_append, List.map_cons, List.nodup_append, List.nodup_cons,
      List.mem_cons, not_or] at haddr
    obtain ⟨-, ⟨⟨hac, hacs⟩, hccs, -⟩, hdis⟩ := haddr
    have hapre : a ∉ pre.map Prod.fst := fun hmem => hdis a hmem a (Or.inl rfl) rfl
    have hcpre : c ∉ pre.map Prod.fst := fun hmem => hdis c hmem c (Or.inr (Or.inl rfl)) rfl
    rcases hs : swaps x y with _ | _
    · -- in place: go on from the next node
      rw [hsplit] at h hnd
      obtain ⟨m', cs', hrun, hlinks, haddrs, hpay, hfresh⟩ :=
        sortPass_spec swaps fuel b h hnd (Nat.lt_of_succ_lt_succ hlen)
      refine ⟨m', (a, x) :: cs', ?_, by simpa using hlinks, by simp [haddrs], ?_, hfresh⟩
      · simp [sortPass, deref_some hr, deref_some hrc, hs, hrun, bubblePass_keep hs]
      · simp [hpay, bubblePass_keep hs]
    · -- out of place: the payloads change nodes
      obtain ⟨nd, hnd₁, hl₁⟩ := h.setPayload hapre (by simp [hac, hacs]) y
      rw [hsplit] at hl₁
      obtain ⟨nd', hnd₂, hl₂⟩ := hl₁.setPayload (by simp [hcpre, Ne.symm hac]) hccs x
      obtain ⟨m', cs', hrun, hlinks, haddrs, hpay, hfresh⟩ :=
        sortPass_spec swaps fuel true hl₂ (by simpa using hnd)
          (Nat.lt_of_succ_lt_succ hlen)
      refine ⟨m', (a, y) :: cs', ?_, by simpa using hlinks, by simp [haddrs], ?_, ?_⟩
      · simp [sortPass, deref_some hr, deref_some hrc, hs, store_some _ hnd₁, store_some _ hnd₂,
          hrun, bubblePass_swap hs]
      · simp [hpay, bubblePass_swap hs]
      · simp [hfresh]

/-- The passes of `SortLinkedList` are those of the sequence. -/
theorem sortLoop_spec (swaps : α → α → Bool) : ∀ (fuel : ℕ) {cs : List (Addr × α)}
    {m : Arena (Node α)} {l : List α}, cs ≠ [] → Links m none cs none →
      (cs.map Prod.fst).Nodup → bubbleLoop swaps fuel (cs.map Prod.snd) = some l →
      ∃ m' cs', (sortLoop swaps (firstAddr cs none) fuel m : Run σ (Arena (Node α))) = pure m' ∧
        Links m' none cs' none ∧ cs'.map Prod.fst = cs.map Prod.fst ∧ cs'.map Prod.snd = l
  | 0, _, _, _, _, _, _, h => by cases h
  | fuel + 1, (a, x) :: cs, m, l, _, hlinks, hnd, h => by
    have hlen := hlinks.length_le_fresh hnd
    obtain ⟨m', cs', hrun, hlinks', haddrs, hpay, -⟩ :=
      sortPass_spec (σ := σ) swaps (m.fresh + 1) false
        (show Links m none ([] ++ (a, x) :: cs) none from hlinks) hnd
        (by simp only [List.length_cons] at hlen; omega)
    simp only [List.map_cons, bubbleLoop] at h
    have hne : cs' ≠ [] := fun he => by simp [he] at haddrs
    have hfirst : firstAddr cs' none = some a := by
      rcases cs' with _ | ⟨c, cs'⟩
      · exact absurd rfl hne
      · rw [firstAddr_cons, (List.cons.inj haddrs).1]
    rcases hs : (bubblePass swaps (x :: cs.map Prod.snd)).2 with _ | _
    · rw [hs] at h hrun
      refine ⟨m', cs', ?_, hlinks', haddrs, by simpa [hpay] using h⟩
      simp [sortLoop, hrun]
    · rw [hs, if_pos rfl, ← hpay] at h
      obtain ⟨m'', cs'', hrun', hlinks'', haddrs', hpay'⟩ :=
        sortLoop_spec swaps fuel hne hlinks' (haddrs ▸ hnd) h
      rw [hfirst] at hrun'
      refine ⟨m'', cs'', ?_, hlinks'', haddrs'.trans haddrs, hpay'⟩
      simp [sortLoop, hrun, hs, hrun']

/-- `SortLinkedList` ends with the nodes in place and the payloads in the order that bubble
sort leaves them in. -/
theorem sortLinkedList_bubble (h : Repr list cs) (ascending : Bool) (comparator : α → α → ℤ)
    (hasymm : ∀ x y, sortSwaps ascending comparator x y = true →
      sortSwaps ascending comparator y x = false) :
    ∃ list' cs' fuel, Repr list' cs' ∧ cs'.map Prod.fst = cs.map Prod.fst ∧
      bubbleLoop (sortSwaps ascending comparator) fuel (cs.map Prod.snd) =
        some (cs'.map Prod.snd) ∧
      (cs'.map Prod.snd).Perm (cs.map Prod.snd) ∧
      ((cs'.map Prod.snd).IsChain fun x y => sortSwaps ascending comparator x y = false) ∧
      (sortLinkedList list ascending comparator : Run σ (LinkedList α)) = pure list' := by
  by_cases hlen : list.numElements < 2
  · have hrun : (sortLinkedList list ascending comparator : Run σ (LinkedList α)) = pure list := by
      simp [sortLinkedList, hlen]
    rw [h.count] at hlen
    refine ⟨list, cs, 1, h, rfl, ?_, List.Perm.refl _, ?_, hrun⟩
    · rcases cs with _ | ⟨c, _ | ⟨d, cs⟩⟩
      · simp [bubbleLoop, bubblePass]
      · simp [bubbleLoop, bubblePass]
      · simp only [List.length_cons] at hlen
        omega
    · rcases cs with _ | ⟨c, _ | ⟨d, cs⟩⟩
      · simp
      · simp
      · simp only [List.length_cons] at hlen
        omega
  · have hinv : inversions (sortSwaps ascending comparator) (cs.map Prod.snd) <
        list.numElements * list.numElements + 1 := by
      have hle : inversions (sortSwaps ascending comparator) (cs.map Prod.snd) ≤ _ :=
        inversions_le (cs.map Prod.snd)
      rw [List.length_map, ← h.count] at hle
      omega
    obtain ⟨l, hl, hperm, hchain⟩ := bubbleLoop_terminates hasymm _ _ hinv
    have hne : cs ≠ [] := fun he => hlen (by rw [h.count, he]; simp)
    obtain ⟨m', cs', hrun, hlinks, haddrs, hpay⟩ :=
      sortLoop_spec (σ := σ) _ _ hne h.links h.nodup hl
    have hcells : cs'.length = cs.length := by simpa using congrArg List.length haddrs
    refine ⟨{ list with nodes := m' }, cs', _, ⟨hlinks, haddrs ▸ h.nodup, ?_, ?_, ?_, ?_⟩, haddrs,
      hpay ▸ hl, hpay ▸ hperm, hpay ▸ hchain, ?_⟩
    · rw [h.head_eq]
      exact firstAddr_eq_of_addrs haddrs.symm none
    · rw [h.tail_eq]
      exact lastAddr_eq_of_addrs haddrs.symm none
    · rw [hcells]
      exact h.count
    · rw [hcells]
      exact h.small
    · rw [sortLinkedList, if_neg hlen, h.head_eq]
      simp [hrun]

/-- `SortLinkedList` ends with the nodes in place and the payloads permuted into
order, for every comparator whose swap condition is a strict weak order. -/
theorem sortLinkedList_spec (h : Repr list cs) (ascending : Bool) (comparator : α → α → ℤ)
    (hasymm : ∀ x y, sortSwaps ascending comparator x y = true →
      sortSwaps ascending comparator y x = false)
    (htrans : ∀ x y z, sortSwaps ascending comparator x y = false →
      sortSwaps ascending comparator y z = false → sortSwaps ascending comparator x z = false) :
    ∃ list' cs', Repr list' cs' ∧ cs'.map Prod.fst = cs.map Prod.fst ∧
      (cs'.map Prod.snd).Perm (cs.map Prod.snd) ∧
      (cs'.map Prod.snd).Pairwise (fun x y => sortSwaps ascending comparator x y = false) ∧
      (sortLinkedList list ascending comparator : Run σ (LinkedList α)) = pure list' := by
  obtain ⟨list', cs', -, hrepr, haddrs, -, hperm, hchain, hrun⟩ :=
    sortLinkedList_bubble (σ := σ) h ascending comparator hasymm
  exact ⟨list', cs', hrepr, haddrs, hperm, pairwise_of_still htrans hchain, hrun⟩

end Refine

end MultithreadedWebServer
