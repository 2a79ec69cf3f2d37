import MultithreadedWebServer.TableRefine

/-!
# Iterating over the hash table, with deletion under way

`Cursor t it rest` is the invariant of a table iterator: it stands on the first of the
pairs `rest` that are still to come, in bucket order. Making an iterator starts it on
all entries; `HTIteratorNext` drops one; `HTIteratorDelete` drops one from the table as
well, and the surviving iterator still stands on the rest, because it sits on another
node (`removeFromHashTable_at` frees only the node of the removed pair).
-/

namespace MultithreadedWebServer

section Iterator

variable {σ : Type} {V : Type} {t : HashTable V}

/-! ## The entries from a bucket on -/

/-- The pairs in the buckets from number `i` on. -/
def HashTable.tailEntries (t : HashTable V) (i : ℕ) : List (HTKeyValue V) :=
  (t.buckets.drop i).flatMap LinkedList.toList

theorem HashTable.tailEntries_of {i : ℕ} {chain : LinkedList (HTKeyValue V)}
    (hi : t.buckets[i]? = some chain) :
    t.tailEntries i = chain.toList ++ t.tailEntries (i + 1) := by
  obtain ⟨hlt, hget⟩ := List.getElem?_eq_some_iff.mp hi
  rw [tailEntries, List.drop_eq_getElem_cons hlt, hget, List.flatMap_cons, tailEntries]

theorem HashTable.tailEntries_end {i : ℕ} (hi : t.buckets.length ≤ i) : t.tailEntries i = [] := by
  rw [tailEntries, List.drop_eq_nil_of_le hi, List.flatMap_nil]

/-- Empty buckets in front contribute nothing. -/
theorem HashTable.tailEntries_skip {k : ℕ} (hk : k ≤ t.buckets.length)
    (hempty : ∀ j chain, j < k → t.buckets[j]? = some chain → chain.toList = []) :
    t.entries = t.tailEntries k := by
  induction k with
  | zero => rfl
  | succ k ih =>
    have hlt : k < t.buckets.length := hk
    have hget : t.buckets[k]? = some t.buckets[k] := List.getElem?_eq_getElem hlt
    rw [ih (Nat.le_of_lt hlt) fun j chain hj => hempty j chain (Nat.lt_succ_of_lt hj),
      HashTable.tailEntries_of hget, hempty k _ (Nat.lt_succ_self k) hget, List.nil_append]

/-- A change in one bucket does not reach the buckets behind it. -/
theorem HashTable.tailEntries_setBucket {i j : ℕ} (hij : i < j)
    (chain : LinkedList (HTKeyValue V)) :
    (t.setBucket i chain).tailEntries j = t.tailEntries j := by
  rw [tailEntries, setBucket, List.drop_set_of_lt hij, tailEntries]

/-! ## The iterator invariant -/

/-- `Cursor t it rest`: the pairs `rest` are still to come, the first of them under the
iterator; an iterator that is not valid has nothing to come. -/
inductive Cursor (t : HashTable V) : HTIter → List (HTKeyValue V) → Prop
  /-- on the node `a` of bucket `i` -/
  | on {i : ℕ} {chain : LinkedList (HTKeyValue V)} {pre post : List (Addr × HTKeyValue V)}
      {a : Addr} {kv : HTKeyValue V} (hi : t.buckets[i]? = some chain)
      (hrepr : Repr chain (pre ++ (a, kv) :: post)) :
      Cursor t ⟨true, i, some ⟨some a⟩⟩ (kv :: (post.map Prod.snd ++ t.tailEntries (i + 1)))
  /-- past the end -/
  | past {it : HTIter} (hv : it.isValid = false) : Cursor t it []

/-- A cursor at the head of a non-empty bucket. -/
theorem Cursor.head {i : ℕ} {chain : LinkedList (HTKeyValue V)} {c : Addr × HTKeyValue V}
    {cs : List (Addr × HTKeyValue V)} (hi : t.buckets[i]? = some chain)
    (hrepr : Repr chain (c :: cs)) :
    Cursor t ⟨true, i, some ⟨some c.1⟩⟩ (chain.toList ++ t.tailEntries (i + 1)) := by
  have hon := Cursor.on hi (show Repr chain ([] ++ (c.1, c.2) :: cs) from hrepr)
  rw [hrepr.toList_eq]
  exact hon

/-- `HashTableMakeIterator` starts on all entries, or reports that a `malloc` failed. -/
theorem hashTableMakeIterator_spec (h : t.WF) :
    ∃ it, Cursor t it t.entries ∧ Yields (hashTableMakeIterator t) (some it) ∧
      ∀ s, ∃ made s', hashTableMakeIterator t s = .ok (made, s') ∧
        (served (if t.numElements = 0 then 1 else 2) s = true ∧ made = some it ∧
            s' = s.drop (if t.numElements = 0 then 1 else 2) ∨
          served (if t.numElements = 0 then 1 else 2) s = false ∧ made = none ∧
            s' = pastRefused (if t.numElements = 0 then 1 else 2) s) := by
  by_cases hz : t.numElements = 0
  · have hnil : t.entries = [] := List.length_eq_zero_iff.mp (h.count ▸ hz)
    refine ⟨⟨false, 0, none⟩, ?_, ?_, fun s => ?_⟩
    · rw [hnil]
      exact .past rfl
    · simp [Run.Returns, hashTableMakeIterator, Run.bind_apply, malloc_apply, hz]
    · rw [if_pos hz]
      cases hs : verdict s
      · refine ⟨none, s.tail, ?_, .inr ⟨by simp [served, hs], rfl, by simp [pastRefused, hs]⟩⟩
        simp [hashTableMakeIterator, Run.bind_apply, malloc_apply, hs]
      · refine ⟨_, s.tail, ?_, .inl ⟨by simp [served, hs], rfl, by simp⟩⟩
        simp [hashTableMakeIterator, Run.bind_apply, malloc_apply, hs, hz]
  · have hsize : ∀ chain ∈ t.buckets, (0 < numElementsInLinkedList chain ↔ chain.toList ≠ []) := by
      intro chain hc
      rw [numElementsInLinkedList, (h.chains chain hc).numElements_eq, List.length_pos_iff]
    rcases hfind : t.buckets.findIdx? fun chain => 0 < numElementsInLinkedList chain with _ | i
    · refine absurd ?_ hz
      rw [h.count, List.length_eq_zero_iff, HashTable.entries, List.flatMap_eq_nil_iff]
      intro chain hc
      have hnot := List.findIdx?_eq_none_iff.mp hfind chain hc
      by_contra hne
      simp [(hsize chain hc).mpr hne] at hnot
    · obtain ⟨hlt, hp, hbefore⟩ := List.findIdx?_eq_some_iff_getElem.mp hfind
      have hi : t.buckets[i]? = some t.buckets[i] := List.getElem?_eq_getElem hlt
      have hmem : t.buckets[i] ∈ t.buckets := List.getElem_mem hlt
      have hne : t.buckets[i].toList ≠ [] := (hsize _ hmem).mp (by simpa using hp)
      have hskip : t.entries = t.tailEntries i := by
        refine HashTable.tailEntries_skip (Nat.le_of_lt hlt) fun j chain hj hget => ?_
        obtain ⟨hjlt, rfl⟩ := List.getElem?_eq_some_iff.mp hget
        by_contra hne
        exact hbefore j hj (by simpa using (hsize _ (List.getElem_mem hjlt)).mpr hne)
      rcases hcells : t.buckets[i].cells with _ | ⟨c, cs⟩
      · exact absurd (by rw [LinkedList.toList, hcells]; rfl) hne
      have hrepr : Repr t.buckets[i] (c :: cs) := hcells ▸ h.chains _ hmem
      have hit := llMakeIterator_spec hrepr
      refine ⟨⟨true, i, some ⟨some c.1⟩⟩, ?_, ?_, fun s => ?_⟩
      · rw [hskip, HashTable.tailEntries_of hi]
        exact Cursor.head hi hrepr
      · simp [Run.Returns, hashTableMakeIterator, Run.bind_apply, malloc_apply, hz, hfind,
          bucketAt_of hi, hit]
      · rw [if_neg hz]
        cases hs : verdict s
        · refine ⟨none, s.tail, ?_, .inr ⟨by simp [served, hs], rfl, by simp [pastRefused, hs]⟩⟩
          simp [hashTableMakeIterator, Run.bind_apply, malloc_apply, hs]
        · cases hs' : verdict s.tail
          · refine ⟨none, s.tail.tail, ?_, .inr ⟨by simp [served, hs, hs'], rfl,
              by simp [pastRefused, hs, hs']⟩⟩
            simp [hashTableMakeIterator, Run.bind_apply, malloc_apply, hs, hz, hfind,
              bucketAt_of hi, hit, hs']
          · refine ⟨_, s.tail.tail, ?_,
              .inl ⟨by simp [served, hs, hs'], rfl, by simp [← List.drop_one]⟩⟩
            simp [hashTableMakeIterator, Run.bind_apply, malloc_apply, hs, hz, hfind,
              bucketAt_of hi, hit, hs']

theorem hashTableMakeIterator_yields (h : t.WF) :
    ∃ it, Yields (hashTableMakeIterator t) (some it) ∧ Cursor t it t.entries := by
  obtain ⟨it, hc, hmake, -⟩ := hashTableMakeIterator_spec h
  exact ⟨it, hmake, hc⟩

/-- A table with a cursor on a pair is not empty. -/
theorem Cursor.numElements_ne_zero (h : t.WF) {it : HTIter} {kv : HTKeyValue V}
    {rest : List (HTKeyValue V)} (hc : Cursor t it (kv :: rest)) : t.numElements ≠ 0 := by
  rcases hc with ⟨hi, hrepr⟩ | _
  rename_i i chain pre post a
  obtain ⟨before, after, hent, -⟩ := HashTable.entries_setBucket hi
  rw [h.count, hent, hrepr.toList_eq]
  simp

/-- `HTIteratorPastEnd` holds exactly when nothing is to come. -/
theorem htIteratorPastEnd_spec (h : t.WF) {it : HTIter} {rest : List (HTKeyValue V)}
    (hc : Cursor t it rest) : htIteratorPastEnd t it = decide (rest = []) := by
  cases hc with
  | on hi hrepr =>
    have hz := (Cursor.on hi hrepr).numElements_ne_zero h
    simp [htIteratorPastEnd, numElementsInHashTable, hz]
  | past hv => simp [htIteratorPastEnd, hv]

/-- `HTIteratorGet` returns the pair under the iterator. -/
theorem htIteratorGet_spec (h : t.WF) {it : HTIter} {kv : HTKeyValue V}
    {rest : List (HTKeyValue V)} (hc : Cursor t it (kv :: rest)) :
    (htIteratorGet t it : Run σ _) = pure (some kv) := by
  have hz := hc.numElements_ne_zero h
  cases hc with
  | on hi hrepr =>
    simp [htIteratorGet, hz, HTIter.bucketIter, bucketAt_of hi, llIteratorGetPayload_spec hrepr]

/-- Past the end there is nothing to get. -/
theorem htIteratorGet_past {it : HTIter} (hv : it.isValid = false) :
    (htIteratorGet t it : Run σ _) = pure none := by
  simp [htIteratorGet, hv]

/-! ## Advancing -/

/-- The search of `FindNextNonEmptyBucket` skips empty buckets only, and stops inside
the array. -/
theorem findNextNonEmptyBucket_spec (h : t.WF) : ∀ (fuel : ℕ) {i : ℕ}, i + 1 < t.numBuckets →
    t.numBuckets ≤ i + 1 + fuel →
    ∃ j chain, i < j ∧ t.buckets[j]? = some chain ∧ chain.WF ∧
      (findNextNonEmptyBucket t fuel i : Run σ _) = pure (j, chain) ∧
      t.tailEntries (i + 1) = chain.toList ++ t.tailEntries (j + 1) ∧
      (chain.toList = [] → t.tailEntries (j + 1) = [])
  | 0, i, hi, hfuel => absurd hfuel (Nat.not_le_of_lt hi)
  | fuel + 1, i, hi, hfuel => by
    obtain ⟨chain, hget, hwf⟩ := h.bucket hi
    have hsmall := h.small
    have hnum : u32 (i + 1) = i + 1 := u32_of_lt (Nat.lt_trans hi hsmall)
    have hlast : u32Sub t.numBuckets 1 = t.numBuckets - 1 :=
      u32Sub_of_le (Nat.one_le_of_lt hi) hsmall
    by_cases hgo : numElementsInLinkedList chain = 0 ∧ i + 1 < t.numBuckets - 1
    · obtain ⟨hn, hlt⟩ := hgo
      have hnil : chain.toList = [] :=
        List.length_eq_zero_iff.mp (hwf.numElements_eq ▸ hn)
      obtain ⟨j, chain', hij, hj, hwf', hrun, htail, hend⟩ :=
        findNextNonEmptyBucket_spec h fuel (by omega : i + 1 + 1 < t.numBuckets) (by omega)
      refine ⟨j, chain', by omega, hj, hwf', ?_, ?_, hend⟩
      · simp [findNextNonEmptyBucket, hnum, bucketAt_of hget, hn, hlast, hlt, hrun]
      · rw [HashTable.tailEntries_of hget, hnil, List.nil_append, htail]
    · refine ⟨i + 1, chain, Nat.lt_succ_self i, hget, hwf, ?_, HashTable.tailEntries_of hget, ?_⟩
      · simp [findNextNonEmptyBucket, hnum, bucketAt_of hget, hlast, hgo]
      · intro hnil
        have hn : numElementsInLinkedList chain = 0 := by
          rw [numElementsInLinkedList, hwf.numElements_eq, hnil]
          rfl
        refine HashTable.tailEntries_end ?_
        rw [← h.size]
        by_contra hlt
        exact hgo ⟨hn, by omega⟩

/-- The next pair is in another bucket. -/
def crosses (numBuckets : ℕ) (kv : HTKeyValue V) : List (HTKeyValue V) → Bool
  | [] => false
  | next :: _ => kv.key.toNat % numBuckets ≠ next.key.toNat % numBuckets

/-- `HTIteratorNext` from a node, and where it leads: the next node of the same chain,
or a later bucket, or past the end. Only for a later bucket it needs memory, and without
it the iterator becomes invalid. -/
theorem htIteratorNext_at (h : t.WF) {i : ℕ} {chain : LinkedList (HTKeyValue V)}
    {pre post : List (Addr × HTKeyValue V)} {a : Addr} {kv : HTKeyValue V}
    (hi : t.buckets[i]? = some chain) (hrepr : Repr chain (pre ++ (a, kv) :: post)) :
    ∃ it' invalid, (∀ s, htIteratorNext t ⟨true, i, some ⟨some a⟩⟩ s =
        if crosses t.numBuckets kv (post.map Prod.snd ++ t.tailEntries (i + 1)) then
          .ok (if verdict s then (1, it') else (0, invalid), s.tail)
        else .ok ((if post.map Prod.snd ++ t.tailEntries (i + 1) = [] then 0 else 1, it'), s)) ∧
      Cursor t it' (post.map Prod.snd ++ t.tailEntries (i + 1)) ∧ invalid.isValid = false ∧
      (it'.isValid = false ∨ i < it'.bucketNum ∨
        ∃ c post', post = c :: post' ∧ it' = ⟨true, i, some ⟨some c.1⟩⟩) := by
  have hlt : i < t.numBuckets := by
    rw [h.size]
    exact (List.getElem?_eq_some_iff.mp hi).1
  have hplace : ∀ e ∈ chain.toList, e.key.toNat % t.numBuckets = i := h.place i chain hi
  have hkv : kv.key.toNat % t.numBuckets = i := hplace kv (by rw [hrepr.toList_eq]; simp)
  have hlast : u32Sub t.numBuckets 1 = t.numBuckets - 1 := u32Sub_of_le h.pos h.small
  rcases post with _ | ⟨⟨b, kv'⟩, post⟩
  · rw [List.map_nil, List.nil_append]
    by_cases hend : i = t.numBuckets - 1
    · -- the last bucket
      have htail : t.tailEntries (i + 1) = [] := HashTable.tailEntries_end (by
        rw [← h.size]
        omega)
      refine ⟨⟨false, i, some ⟨some a⟩⟩, ⟨false, 0, none⟩, fun s => ?_, ?_, rfl, .inl rfl⟩
      · simp [htIteratorNext, HTIter.bucketIter, bucketAt_of hi,
          llIteratorNext_spec hrepr, hlast, ← hend, htail, crosses]
      · rw [htail]
        exact .past rfl
    · obtain ⟨j, chain', hij, hj, hwf', hrun, htail, hnone⟩ :=
        findNextNonEmptyBucket_spec (σ := Schedule) h t.numBuckets
          (by omega : i + 1 < t.numBuckets) (by omega)
      rcases hcells : chain'.cells with _ | ⟨c, cs⟩
      · -- every bucket that is left is empty
        have hrepr' : Repr chain' [] := hcells ▸ hwf'
        have hnil : chain'.toList = [] := hrepr'.toList_eq
        have hn : chain'.numElements = 0 := hrepr'.count
        refine ⟨⟨false, j, some ⟨some a⟩⟩, ⟨false, 0, none⟩, fun s => ?_, ?_, rfl, .inl rfl⟩
        · simp [htIteratorNext, HTIter.bucketIter, bucketAt_of hi,
            llIteratorNext_spec hrepr, hlast, hend, hrun, numElementsInLinkedList, hn, htail,
            hnil, hnone hnil, crosses]
        · rw [htail, hnil, hnone hnil]
          exact .past rfl
      · have hrepr' : Repr chain' (c :: cs) := hcells ▸ hwf'
        have hlist : chain'.toList = c.2 :: cs.map Prod.snd := hrepr'.toList_eq
        have hn : 0 < chain'.numElements := by rw [hrepr'.count]; simp
        have hit := llMakeIterator_spec hrepr'
        have hnext : c.2.key.toNat % t.numBuckets = j := h.place j chain' hj c.2 (by simp [hlist])
        refine ⟨⟨true, j, some ⟨some c.1⟩⟩, ⟨false, j, some ⟨some a⟩⟩, fun s => ?_, ?_, rfl,
          .inr (.inl hij)⟩
        · have hcross : crosses t.numBuckets kv (t.tailEntries (i + 1)) = true := by
            rw [htail, hlist, List.cons_append, crosses, hkv, hnext]
            exact decide_eq_true (Nat.ne_of_lt hij)
          rw [if_pos hcross]
          cases hs : verdict s <;>
            simp [htIteratorNext, HTIter.bucketIter, bucketAt_of hi, llIteratorNext_spec hrepr,
              hlast, hend, hrun, numElementsInLinkedList, hn, Run.bind_apply, hit, hs]
        · rw [htail]
          exact Cursor.head hj hrepr'
  · -- another node in the same chain
    refine ⟨⟨true, i, some ⟨some b⟩⟩, ⟨false, 0, none⟩, fun s => ?_, ?_, rfl,
      .inr (.inr ⟨(b, kv'), post, rfl, rfl⟩)⟩
    · have hnext : kv'.key.toNat % t.numBuckets = i := hplace kv' (by rw [hrepr.toList_eq]; simp)
      simp [htIteratorNext, HTIter.bucketIter, bucketAt_of hi,
        llIteratorNext_spec hrepr, crosses, hkv, hnext]
    · have hrepr' : Repr chain ((pre ++ [(a, kv)]) ++ (b, kv') :: post) := by simpa using hrepr
      exact Cursor.on hi hrepr'

/-- With memory enough. -/
theorem htIteratorNext_on (h : t.WF) {i : ℕ} {chain : LinkedList (HTKeyValue V)}
    {pre post : List (Addr × HTKeyValue V)} {a : Addr} {kv : HTKeyValue V}
    (hi : t.buckets[i]? = some chain) (hrepr : Repr chain (pre ++ (a, kv) :: post)) :
    ∃ it', Yields (htIteratorNext t ⟨true, i, some ⟨some a⟩⟩)
        (if post.map Prod.snd ++ t.tailEntries (i + 1) = [] then 0 else 1, it') ∧
      Cursor t it' (post.map Prod.snd ++ t.tailEntries (i + 1)) ∧
      (it'.isValid = false ∨ i < it'.bucketNum ∨
        ∃ c post', post = c :: post' ∧ it' = ⟨true, i, some ⟨some c.1⟩⟩) := by
  obtain ⟨it', invalid, hrun, hc, -, hwhere⟩ := htIteratorNext_at h hi hrepr
  refine ⟨it', ?_, hc, hwhere⟩
  change htIteratorNext t _ [] = _
  rw [hrun]
  split
  · rename_i hcross
    have hne : post.map Prod.snd ++ t.tailEntries (i + 1) ≠ [] := by
      intro hnil
      rw [hnil] at hcross
      cases hcross
    rw [if_neg hne]
    rfl
  · rfl

/-- `HTIteratorNext` under a cursor, for every outcome of `malloc`. -/
theorem htIteratorNext_spec (h : t.WF) {it : HTIter} {kv : HTKeyValue V}
    {rest : List (HTKeyValue V)} (hc : Cursor t it (kv :: rest)) :
    ∃ it' invalid, Cursor t it' rest ∧ invalid.isValid = false ∧ ∀ s, htIteratorNext t it s =
      if crosses t.numBuckets kv rest then
        .ok (if verdict s then (1, it') else (0, invalid), s.tail)
      else .ok ((if rest = [] then 0 else 1, it'), s) := by
  cases hc with
  | on hi hrepr =>
    obtain ⟨it', invalid, hrun, hc', hinvalid, -⟩ := htIteratorNext_at h hi hrepr
    exact ⟨it', invalid, hc', hinvalid, hrun⟩

/-- `HTIteratorNext` drops the pair under the iterator; it returns 0 exactly at the last
one. -/
theorem htIteratorNext_yields (h : t.WF) {it : HTIter} {kv : HTKeyValue V}
    {rest : List (HTKeyValue V)} (hc : Cursor t it (kv :: rest)) :
    ∃ it', Yields (htIteratorNext t it) (if rest = [] then 0 else 1, it') ∧ Cursor t it' rest := by
  cases hc with
  | on hi hrepr =>
    obtain ⟨it', hrun, hc', -⟩ := htIteratorNext_on h hi hrepr
    exact ⟨it', hrun, hc'⟩

/-! ## Deleting under the iterator -/

/-- A cursor behind a bucket does not notice a change in that bucket. -/
theorem Cursor.setBucket_before {i n : ℕ} {it : HTIter} {rest : List (HTKeyValue V)}
    (hc : Cursor t it rest) (hlt : it.isValid = false ∨ i < it.bucketNum)
    (chain : LinkedList (HTKeyValue V)) :
    Cursor { t.setBucket i chain with numElements := n } it rest := by
  cases hc with
  | on hi hrepr =>
    rename_i j chain' pre post a kv
    have hij : i < j := hlt.resolve_left Bool.noConfusion
    have hget : (t.setBucket i chain).buckets[j]? = some chain' := by
      rw [HashTable.setBucket, List.getElem?_set_ne (Nat.ne_of_lt hij)]
      exact hi
    have htail := t.tailEntries_setBucket (Nat.lt_succ_of_lt hij) chain
    have hon := Cursor.on (t := { t.setBucket i chain with numElements := n }) hget hrepr
    change Cursor _ _
      (kv :: (post.map Prod.snd ++ (t.setBucket i chain).tailEntries (j + 1))) at hon
    rwa [htail] at hon
  | past hv => exact .past hv

/-- What `HTIteratorDelete` does after its call of `HTIteratorNext`, which returned `res`. -/
def deleteResult (t' : HashTable V) (kv : HTKeyValue V) (res : ℕ) (it' : HTIter) (s : Schedule) :
    Except Stop ((ℕ × HashTable V × HTIter × Option (HTKeyValue V)) × Schedule) :=
  if verdict s then .ok ((if res = 0 then 2 else 1, t', it', some kv), s.tail)
  else .error .verify333

/-- `HTIteratorDelete` takes the pair under the iterator out of the table and goes on to the
next pair; without memory for the next chain the iterator becomes invalid, and without memory
for the removal a check fails. -/
theorem htIteratorDelete_attempt [DecidableEq V] (h : t.WF) {it : HTIter} {kv : HTKeyValue V}
    {rest : List (HTKeyValue V)} (hc : Cursor t it (kv :: rest)) :
    ∃ t' it' invalid, t'.WF ∧ Cursor t' it' rest ∧ invalid.isValid = false ∧
      t.entries.Perm (kv :: t'.entries) ∧ t'.numBuckets = t.numBuckets ∧
      ∀ s, htIteratorDelete t it s =
        if crosses t.numBuckets kv rest then
          if verdict s then deleteResult t' kv 1 it' s.tail else deleteResult t' kv 0 invalid s.tail
        else deleteResult t' kv (if rest = [] then 0 else 1) it' s := by
  have hget := htIteratorGet_spec (σ := Schedule) h hc
  cases hc with
  | on hi hrepr =>
    rename_i i chain pre post a
    obtain ⟨it', invalid, hnext, hcur, hinvalid, hwhere⟩ := htIteratorNext_at h hi hrepr
    obtain ⟨chain', hrepr', hwf', hperm, hrem⟩ := removeFromHashTable_attempt h hi hrepr
    -- what follows the step of the iterator
    have hdelete (s : Schedule) (res : ℕ) (it₁ : HTIter) (s₁ : Schedule)
        (hrun : htIteratorNext t ⟨true, i, some ⟨some a⟩⟩ s = .ok ((res, it₁), s₁)) :
        htIteratorDelete t ⟨true, i, some ⟨some a⟩⟩ s =
          deleteResult { t.setBucket i chain' with numElements := t.numElements - 1 } kv res it₁
            s₁ := by
      cases hs : verdict s₁ <;>
        simp [htIteratorDelete, hget, Run.bind_apply, hrun, hrem, hs, deleteResult]
    refine ⟨_, it', invalid, hwf', ?_, hinvalid, hperm, rfl, fun s => ?_⟩
    · rcases hwhere with hv | hlt | ⟨⟨b, kv'⟩, post', rfl, rfl⟩
      · exact hcur.setBucket_before (.inl hv) chain'
      · exact hcur.setBucket_before (.inr hlt) chain'
      · -- the surviving iterator stands in the chain a node was just freed from
        have hget' : (t.setBucket i chain').buckets[i]? = some chain' := by
          rw [HashTable.setBucket, List.getElem?_set_self (List.getElem?_eq_some_iff.mp hi).1]
        have hon := Cursor.on (t := { t.setBucket i chain' with
          numElements := t.numElements - 1 }) hget' hrepr'
        have htail := t.tailEntries_setBucket (Nat.lt_succ_self i) chain'
        change Cursor _ _ (kv' :: (post'.map Prod.snd ++
          (t.setBucket i chain').tailEntries (i + 1))) at hon
        rwa [htail] at hon
    · have hrun := hnext s
      by_cases hcross : crosses t.numBuckets kv (post.map Prod.snd ++ t.tailEntries (i + 1)) = true
      · rw [if_pos hcross] at hrun ⊢
        cases hs : verdict s
        · rw [hs] at hrun
          exact hdelete s _ _ _ hrun
        · rw [hs] at hrun
          exact hdelete s _ _ _ hrun
      · rw [if_neg hcross] at hrun ⊢
        exact hdelete s _ _ _ hrun

/-- `HTIteratorDelete` hands out the pair under the iterator and takes it out of the
table; the iterator goes on to the next pair, and 2 is returned exactly at the last
one. -/
theorem htIteratorDelete_yields [DecidableEq V] (h : t.WF) {it : HTIter} {kv : HTKeyValue V}
    {rest : List (HTKeyValue V)} (hc : Cursor t it (kv :: rest)) :
    ∃ t' it', Yields (htIteratorDelete t it) (if rest = [] then 2 else 1, t', it', some kv) ∧
      t'.WF ∧ Cursor t' it' rest ∧ t.entries.Perm (kv :: t'.entries) ∧
      t'.numBuckets = t.numBuckets := by
  obtain ⟨t', it', invalid, hwf, hc', -, hperm, hnb, hrun⟩ := htIteratorDelete_attempt h hc
  refine ⟨t', it', ?_, hwf, hc', hperm, hnb⟩
  change htIteratorDelete t it [] = _
  rw [hrun]
  cases rest with
  | nil => rfl
  | cons next rest =>
    split
    · rfl
    · rfl

end Iterator

end MultithreadedWebServer
