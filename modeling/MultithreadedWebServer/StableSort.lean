import MultithreadedWebServer.ListRefine
import MultithreadedWebServer.MemIndex

/-!
# SortLinkedList is a stable sort

What the sort of a list does for a comparator that compares by a total preorder. Only
neighbours that are strictly out of order change places, in both directions, so payloads that
compare equal keep their order. Only payloads move.
-/

namespace MultithreadedWebServer

universe u

/-- The comparator says -1, 0 or 1 according to a total preorder. -/
structure ComparesBy {α : Type u} (comparator : α → α → ℤ) (le : α → α → Prop) : Prop where
  /-- the order is total -/
  total : ∀ x y, le x y ∨ le y x
  /-- the order is transitive -/
  trans : ∀ x y z, le x y → le y z → le x z
  /-- below -/
  below : ∀ x y, ¬ le y x → comparator x y = -1
  /-- equal -/
  equal : ∀ x y, le x y → le y x → comparator x y = 0
  /-- above -/
  above : ∀ x y, ¬ le x y → comparator x y = 1

/-- The comparator of search results compares their ranks. -/
theorem miSearchListComparator_comparesBy :
    ComparesBy miSearchListComparator fun sr1 sr2 => sr1.rank ≤ sr2.rank where
  total sr1 sr2 := Nat.le_total sr1.rank sr2.rank
  trans _ _ _ := Nat.le_trans
  below sr1 sr2 h := by
    rw [miSearchListComparator, if_neg (by omega), if_pos (by omega)]
  equal sr1 sr2 h h' := by
    rw [miSearchListComparator, if_neg (by omega), if_neg (by omega)]
  above sr1 sr2 h := by
    rw [miSearchListComparator, if_pos (by omega)]

section Comparator

variable {α : Type} {comparator : α → α → ℤ} {le : α → α → Prop}

/-- In which order the payloads are left. -/
def InOrder (ascending : Bool) (le : α → α → Prop) (x y : α) : Prop :=
  if ascending then le x y else le y x

/-- Two neighbours stay where they are just when they are in order. -/
theorem ComparesBy.sortSwaps_iff (h : ComparesBy comparator le) (ascending : Bool) (x y : α) :
    sortSwaps ascending comparator x y = false ↔ InOrder ascending le x y := by
  rw [sortSwaps, InOrder]
  by_cases hxy : le x y
  · by_cases hyx : le y x
    · cases ascending <;> simp [h.equal x y hxy hyx, hxy, hyx]
    · cases ascending <;> simp [h.below x y hyx, hxy, hyx]
  · have hyx : le y x := (h.total x y).resolve_left hxy
    cases ascending <;> simp [h.above x y hxy, hxy, hyx]

theorem ComparesBy.zero_iff (h : ComparesBy comparator le) (x y : α) :
    comparator x y = 0 ↔ le x y ∧ le y x := by
  constructor
  · intro hzero
    constructor
    · by_contra hxy
      rw [h.above x y hxy] at hzero
      cases hzero
    · by_contra hyx
      rw [h.below x y hyx] at hzero
      cases hzero
  · exact fun hle => h.equal x y hle.1 hle.2

/-- Payloads compare equal just when they may stand in either order. -/
theorem ComparesBy.equal_iff (h : ComparesBy comparator le) (ascending : Bool) (x y : α) :
    decide (comparator x y = 0) = true ↔ InOrder ascending le x y ∧ InOrder ascending le y x := by
  rw [decide_eq_true_iff, h.zero_iff, InOrder, InOrder]
  cases ascending with
  | false => exact and_comm
  | true => exact Iff.rfl

theorem ComparesBy.inOrder_refl (h : ComparesBy comparator le) (ascending : Bool) (x : α) :
    InOrder ascending le x x := by
  have hxx : le x x := (h.total x x).elim id id
  rw [InOrder]
  cases ascending <;> exact hxx

theorem ComparesBy.inOrder_trans (h : ComparesBy comparator le) {ascending : Bool} {x y z : α}
    (hxy : InOrder ascending le x y) (hyz : InOrder ascending le y z) :
    InOrder ascending le x z := by
  cases ascending with
  | false => exact h.trans z y x hyz hxy
  | true => exact h.trans x y z hxy hyz

theorem ComparesBy.inOrder_total (h : ComparesBy comparator le) (ascending : Bool) (x y : α) :
    InOrder ascending le x y ∨ InOrder ascending le y x := by
  cases ascending with
  | false => exact h.total y x
  | true => exact h.total x y

end Comparator

/-! ## The nodes -/

/-- Where a node points. -/
def Node.pointers {α : Type u} (node : Node α) : Ptr × Ptr := (node.next, node.prev)

section Pointers

variable {σ α : Type}

/-- Writing a payload leaves the pointers of every node. -/
theorem pointers_of_store {m m' : Arena (Node α)} {p : Ptr} {y : α} {s s' : σ}
    (h : (store m p fun node => { node with payload := y } : Run σ (Arena (Node α))) s =
      .ok (m', s')) (a : Addr) :
    (m'.read a).map Node.pointers = (m.read a).map Node.pointers := by
  cases p with
  | none => cases h
  | some c =>
    cases hread : m.read c with
    | none =>
      simp only [store, hread] at h
      cases h
    | some node =>
      rw [store_some _ hread, Run.pure_eq_ok] at h
      rw [← h.1]
      by_cases ha : a = c
      · rw [ha, Arena.read_write_self hread, hread]
        rfl
      · rw [Arena.read_write_ne _ ha]

theorem pointers_of_sortPass {swaps : α → α → Bool} {fuel : ℕ} {m m' : Arena (Node α)}
    {curnode : Ptr} {b b' : Bool} {s s' : σ}
    (h : (sortPass swaps fuel m curnode b : Run σ (Arena (Node α) × Bool)) s =
      .ok ((m', b'), s')) (a : Addr) :
    (m'.read a).map Node.pointers = (m.read a).map Node.pointers := by
  induction fuel generalizing m curnode b s with
  | zero => cases h
  | succ fuel ih =>
    rw [sortPass] at h
    obtain ⟨node, s₁, -, h⟩ := Run.bind_eq_ok h
    by_cases hnext : node.next = none
    · rw [if_pos hnext, Run.pure_eq_ok] at h
      rw [(Prod.mk.inj h.1).1]
    · rw [if_neg hnext] at h
      obtain ⟨next, s₂, -, h⟩ := Run.bind_eq_ok h
      split at h
      · obtain ⟨m₁, s₃, hfirst, h⟩ := Run.bind_eq_ok h
        obtain ⟨m₂, s₄, hsecond, h⟩ := Run.bind_eq_ok h
        rw [ih h, pointers_of_store hsecond, pointers_of_store hfirst]
      · exact ih h

theorem pointers_of_sortLoop {swaps : α → α → Bool} {head : Ptr} {fuel : ℕ}
    {m m' : Arena (Node α)} {s s' : σ}
    (h : (sortLoop swaps head fuel m : Run σ (Arena (Node α))) s = .ok (m', s')) (a : Addr) :
    (m'.read a).map Node.pointers = (m.read a).map Node.pointers := by
  induction fuel generalizing m s with
  | zero => cases h
  | succ fuel ih =>
    rw [sortLoop] at h
    obtain ⟨⟨m₁, swapped⟩, s₁, hpass, h⟩ := Run.bind_eq_ok h
    dsimp only at h
    split at h
    · rw [ih h, pointers_of_sortPass hpass]
    · rw [Run.pure_eq_ok] at h
      rw [← h.1, pointers_of_sortPass hpass]

/-- The sort leaves the head, the tail, the count and all pointers. -/
theorem structure_of_sortLinkedList {list list' : LinkedList α} {ascending : Bool}
    {comparator : α → α → ℤ} {s s' : σ}
    (h : (sortLinkedList list ascending comparator : Run σ (LinkedList α)) s = .ok (list', s')) :
    list'.head = list.head ∧ list'.tail = list.tail ∧ list'.numElements = list.numElements ∧
      ∀ a, (list'.nodes.read a).map Node.pointers = (list.nodes.read a).map Node.pointers := by
  rw [sortLinkedList] at h
  split at h
  · rw [Run.pure_eq_ok] at h
    rw [← h.1]
    exact ⟨rfl, rfl, rfl, fun _ => rfl⟩
  · obtain ⟨nodes, s₁, hloop, h⟩ := Run.bind_eq_ok h
    rw [Run.pure_eq_ok] at h
    rw [← h.1]
    exact ⟨rfl, rfl, rfl, pointers_of_sortLoop hloop⟩

end Pointers

/-! ## The sort -/

section Stable

variable {α σ : Type}

/-- For every comparator that compares by a total preorder, `SortLinkedList` ends. The nodes
stay as they are but for their payloads, which are left in order; payloads that compare equal
keep their order, and no other sequence is in order and has that property. -/
theorem sortLinkedList_stable {comparator : α → α → ℤ} {le : α → α → Prop}
    (hcmp : ComparesBy comparator le) {list : LinkedList α} {cs : List (Addr × α)}
    (h : Repr list cs) (ascending : Bool) (s : σ) :
    ∃ list' cs',
      (sortLinkedList list ascending comparator : Run σ (LinkedList α)).Returns s list' s ∧
      list'.head = list.head ∧ list'.tail = list.tail ∧ list'.numElements = list.numElements ∧
      (∀ a, (list'.nodes.read a).map Node.pointers = (list.nodes.read a).map Node.pointers) ∧
      Repr list' cs' ∧ cs'.map Prod.fst = cs.map Prod.fst ∧
      (cs'.map Prod.snd).Perm (cs.map Prod.snd) ∧
      (cs'.map Prod.snd).Pairwise (InOrder ascending le) ∧
      (∀ x, (cs'.map Prod.snd).filter (fun y => comparator x y = 0) =
        (cs.map Prod.snd).filter fun y => comparator x y = 0) ∧
      ∀ l, l.Pairwise (InOrder ascending le) →
        (∀ x, l.filter (fun y => comparator x y = 0) =
          (cs.map Prod.snd).filter fun y => comparator x y = 0) → l = cs'.map Prod.snd := by
  have hasymm : ∀ x y, sortSwaps ascending comparator x y = true →
      sortSwaps ascending comparator y x = false := by
    intro x y hswaps
    apply (hcmp.sortSwaps_iff ascending y x).mpr
    apply (hcmp.inOrder_total ascending x y).resolve_left
    rw [← hcmp.sortSwaps_iff, hswaps]
    exact Bool.noConfusion
  have htrans : ∀ x y z, sortSwaps ascending comparator x y = false →
      sortSwaps ascending comparator y z = false → sortSwaps ascending comparator x z = false := by
    intro x y z
    simp only [hcmp.sortSwaps_iff]
    exact hcmp.inOrder_trans
  obtain ⟨list', cs', fuel, hrepr, haddrs, hloop, hperm, hchain, hrun⟩ :=
    sortLinkedList_bubble (σ := σ) h ascending comparator hasymm
  have hreturns : (sortLinkedList list ascending comparator : Run σ (LinkedList α)).Returns s
      list' s := by
    rw [hrun]
    exact .pure list' s
  obtain ⟨hhead, htail, hcount, hpointers⟩ := structure_of_sortLinkedList hreturns
  have hsorted : (cs'.map Prod.snd).Pairwise (InOrder ascending le) := by
    have hpairwise := pairwise_of_still htrans hchain
    simpa only [hcmp.sortSwaps_iff] using hpairwise
  have hstable : ∀ x, (cs'.map Prod.snd).filter (fun y => comparator x y = 0) =
      (cs.map Prod.snd).filter fun y => comparator x y = 0 := by
    intro x
    apply bubbleLoop_filter ?_ hloop
    -- two payloads that equal a third are in order
    intro y z hswaps hxy
    by_contra hxz
    rw [Bool.not_eq_false, hcmp.equal_iff ascending] at hxz
    rw [hcmp.equal_iff ascending] at hxy
    have hin := (hcmp.sortSwaps_iff ascending y z).mpr (hcmp.inOrder_trans hxy.2 hxz.1)
    rw [hswaps] at hin
    cases hin
  refine ⟨list', cs', hreturns, hhead, htail, hcount, hpointers, hrepr, haddrs, hperm, hsorted,
    hstable, ?_⟩
  intro l hl hfilter
  exact eq_of_sorted_of_filter (hcmp.inOrder_refl ascending) (hcmp.equal_iff ascending) hl hsorted
    (fun x => (hfilter x).trans (hstable x).symm)

/-- Three results, of which two have the same rank. -/
theorem sortLinkedList_stable_three : ∃ list' cs',
    (sortLinkedList (⟨3, some 0, some 2, ⟨[some ⟨⟨1, 5⟩, some 1, none⟩,
        some ⟨⟨2, 7⟩, some 2, some 0⟩, some ⟨⟨3, 5⟩, none, some 1⟩]⟩⟩ : LinkedList SearchResult)
      false miSearchListComparator : Run PUnit (LinkedList SearchResult)).Returns ⟨⟩ list' ⟨⟩ ∧
    Repr list' cs' ∧ cs'.map Prod.snd = [⟨2, 7⟩, ⟨1, 5⟩, ⟨3, 5⟩] := by
  have hrepr : Repr (⟨3, some 0, some 2, ⟨[some ⟨⟨1, 5⟩, some 1, none⟩,
      some ⟨⟨2, 7⟩, some 2, some 0⟩, some ⟨⟨3, 5⟩, none, some 1⟩]⟩⟩ : LinkedList SearchResult)
      [(0, ⟨1, 5⟩), (1, ⟨2, 7⟩), (2, ⟨3, 5⟩)] :=
    ⟨⟨rfl, rfl, rfl, trivial⟩, by decide, rfl, rfl, rfl, by decide⟩
  obtain ⟨list', cs', hrun, -, -, -, -, hrepr', -, -, -, -, hunique⟩ :=
    sortLinkedList_stable miSearchListComparator_comparesBy hrepr false PUnit.unit
  have hequal : ∀ sr1 sr2 : SearchResult,
      miSearchListComparator sr1 sr2 = 0 ↔ sr1.rank = sr2.rank := by
    intro sr1 sr2
    rw [miSearchListComparator_comparesBy.zero_iff]
    exact ⟨fun h => Nat.le_antisymm h.1 h.2, fun h => ⟨h.le, h.ge⟩⟩
  refine ⟨list', cs', hrun, hrepr', (hunique [⟨2, 7⟩, ⟨1, 5⟩, ⟨3, 5⟩] ?_ ?_).symm⟩
  · simp [InOrder]
  · intro x
    by_cases h5 : x.rank = 5
    · simp [hequal, h5]
    · simp [hequal, h5, List.filter_cons]

end Stable

end MultithreadedWebServer
