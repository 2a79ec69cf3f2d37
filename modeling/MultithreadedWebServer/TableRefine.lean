import Mathlib.Data.Finmap
import Mathlib.Data.List.TakeWhile
import MultithreadedWebServer.HashTable

/-!
# The hash table refines a finite map

`HashTable.WF` is the invariant of the table: every chain is a well-formed list, a
key sits in the bucket it hashes to, keys are distinct and the counter is exact. The
abstraction is `HashTable.toFinmap`, a Mathlib finite map. Each operation of
`HashTable.c` other than growing is matched with the operation on finite maps here;
`Rehash.lean` adds growing.

What an operation does to the entries is stated up to permutation: the chains fix an
order, the map does not see it.
-/

namespace MultithreadedWebServer

/-! ## Keyed lists and finite maps -/

section Keyed

variable {V : Type}

/-- A key/value pair as an entry of a finite map. -/
def HTKeyValue.toSigma (kv : HTKeyValue V) : Σ _ : UInt64, V := ⟨kv.key, kv.value⟩

/-- The finite map a list of pairs with distinct keys stands for. -/
def asFinmap (l : List (HTKeyValue V)) : Finmap fun _ : UInt64 => V :=
  (l.map HTKeyValue.toSigma).toFinmap

/-- No key occurs twice. -/
def DistinctKeys (l : List (HTKeyValue V)) : Prop := (l.map HTKeyValue.key).Nodup

theorem DistinctKeys.nodupKeys {l : List (HTKeyValue V)} (h : DistinctKeys l) :
    (l.map HTKeyValue.toSigma).NodupKeys := by
  rw [List.NodupKeys, List.keys, List.map_map]
  exact h

theorem DistinctKeys.perm {l l' : List (HTKeyValue V)} (h : DistinctKeys l) (hp : l.Perm l') :
    DistinctKeys l' :=
  (hp.map HTKeyValue.key).nodup_iff.mp h

theorem distinctKeys_cons {kv : HTKeyValue V} {l : List (HTKeyValue V)} :
    DistinctKeys (kv :: l) ↔ (∀ e ∈ l, e.key ≠ kv.key) ∧ DistinctKeys l := by
  simp only [DistinctKeys, List.map_cons, List.nodup_cons, List.mem_map, not_exists, not_and]

theorem asFinmap_perm {l l' : List (HTKeyValue V)} (h : DistinctKeys l) (hp : l.Perm l') :
    asFinmap l = asFinmap l' := by
  refine Finmap.ext_lookup fun k => ?_
  rw [asFinmap, asFinmap, Finmap.dlookup_list_toFinmap, Finmap.dlookup_list_toFinmap]
  exact List.perm_dlookup k h.nodupKeys (hp.map _)

theorem asFinmap_cons (kv : HTKeyValue V) (l : List (HTKeyValue V)) :
    asFinmap (kv :: l) = (asFinmap l).insert kv.key kv.value := by
  rw [asFinmap, List.map_cons]
  exact Finmap.toFinmap_cons (β := fun _ => V) kv.key kv.value _

theorem lookup_asFinmap_of_mem {l : List (HTKeyValue V)} (h : DistinctKeys l)
    {kv : HTKeyValue V} (hkv : kv ∈ l) : (asFinmap l).lookup kv.key = some kv.value := by
  rw [asFinmap, Finmap.dlookup_list_toFinmap]
  exact List.mem_dlookup h.nodupKeys (List.mem_map.mpr ⟨kv, hkv, rfl⟩)

theorem lookup_asFinmap_of_absent {l : List (HTKeyValue V)} {k : UInt64}
    (h : ∀ e ∈ l, e.key ≠ k) : (asFinmap l).lookup k = none := by
  rw [asFinmap, Finmap.dlookup_list_toFinmap, List.dlookup_eq_none, List.keys, List.map_map]
  rintro hmem
  obtain ⟨e, he, hk⟩ := List.mem_map.mp hmem
  exact h e he hk

/-- A key is bound to a value in the map exactly if the list has that pair. -/
theorem lookup_asFinmap_iff {l : List (HTKeyValue V)} (h : DistinctKeys l) {k : UInt64} {v : V} :
    (asFinmap l).lookup k = some v ↔ ⟨k, v⟩ ∈ l := by
  refine ⟨fun hk => ?_, fun hmem => lookup_asFinmap_of_mem h hmem⟩
  rw [asFinmap, Finmap.dlookup_list_toFinmap] at hk
  obtain ⟨kv, hkv, he⟩ := List.mem_map.mp (List.of_mem_dlookup hk)
  obtain rfl : kv = ⟨k, v⟩ := by
    cases kv
    simpa [HTKeyValue.toSigma] using he
  exact hkv

/-- Taking one pair out of the list erases its key from the map. -/
theorem asFinmap_erase {kv : HTKeyValue V} {l : List (HTKeyValue V)}
    (h : DistinctKeys (kv :: l)) : asFinmap l = (asFinmap (kv :: l)).erase kv.key := by
  obtain ⟨hne, -⟩ := distinctKeys_cons.mp h
  refine Finmap.ext_lookup fun k => ?_
  by_cases hk : k = kv.key
  · rw [hk, Finmap.lookup_erase, lookup_asFinmap_of_absent hne]
  · rw [Finmap.lookup_erase_ne hk, asFinmap_cons, Finmap.lookup_insert_of_ne _ hk]

theorem card_asFinmap {l : List (HTKeyValue V)} (h : DistinctKeys l) :
    (asFinmap l).keys.card = l.length := by
  induction l with
  | nil => rfl
  | cons kv l ih =>
    obtain ⟨hne, hl⟩ := distinctKeys_cons.mp h
    have hmem : kv.key ∉ (asFinmap l).keys := by
      rw [Finmap.mem_keys, ← Finmap.lookup_eq_none, lookup_asFinmap_of_absent hne]
    have hkeys : (asFinmap (kv :: l)).keys = insert kv.key (asFinmap l).keys := by
      ext k
      rw [Finmap.mem_keys, asFinmap_cons, Finmap.mem_insert, Finset.mem_insert, Finmap.mem_keys]
    rw [hkeys, Finset.card_insert_of_notMem hmem, ih hl, List.length_cons]

end Keyed

/-! ## The invariant -/

section Table

variable {σ : Type} {V : Type}

/-- All pairs of the table, bucket by bucket. -/
def HashTable.entries (t : HashTable V) : List (HTKeyValue V) := t.buckets.flatMap LinkedList.toList

/-- The finite map the table stands for. -/
def HashTable.toFinmap (t : HashTable V) : Finmap fun _ : UInt64 => V := asFinmap t.entries

/-- The table invariant. -/
structure HashTable.WF (t : HashTable V) : Prop where
  /-- every chain is a well-formed list -/
  chains : ∀ chain ∈ t.buckets, chain.WF
  /-- `num_buckets` is the size of the array -/
  size : t.numBuckets = t.buckets.length
  /-- there is a bucket -/
  pos : 0 < t.numBuckets
  /-- `num_buckets` fits `HWSize_t` -/
  small : t.numBuckets < 2 ^ 32
  /-- a key is in the bucket it hashes to -/
  place : ∀ i chain, t.buckets[i]? = some chain →
    ∀ kv ∈ chain.toList, kv.key.toNat % t.numBuckets = i
  /-- keys are pairwise distinct -/
  distinct : DistinctKeys t.entries
  /-- `num_elements` is the sum of the chain lengths -/
  count : t.numElements = t.entries.length
  /-- `num_elements` fits `HWSize_t` -/
  fits : t.entries.length < 2 ^ 32

variable {t : HashTable V}

/-- The chain of a bucket number in range. -/
theorem HashTable.WF.bucket (h : t.WF) {i : ℕ} (hi : i < t.numBuckets) :
    ∃ chain, t.buckets[i]? = some chain ∧ chain.WF := by
  rw [h.size] at hi
  exact ⟨t.buckets[i], List.getElem?_eq_getElem hi, h.chains _ (List.getElem_mem hi)⟩

/-- The chain a key hashes to. -/
theorem HashTable.WF.bucketOf (h : t.WF) (key : UInt64) :
    ∃ chain, t.buckets[key.toNat % t.numBuckets]? = some chain ∧ chain.WF :=
  h.bucket (Nat.mod_lt _ h.pos)

theorem bucketAt_of {i : ℕ} {chain : LinkedList (HTKeyValue V)}
    (h : t.buckets[i]? = some chain) : (bucketAt t i : Run σ _) = pure chain := by
  rw [bucketAt, h]

theorem HashTable.WF.hashKey (h : t.WF) (key : UInt64) :
    (hashKeyToBucketNum t key : Run σ ℕ) = pure (key.toNat % t.numBuckets) := by
  rw [hashKeyToBucketNum, if_neg (Nat.pos_iff_ne_zero.mp h.pos)]

/-- A pair is in the table exactly if it is in the chain its key hashes to. -/
theorem HashTable.WF.mem_entries (h : t.WF) {kv : HTKeyValue V}
    {chain : LinkedList (HTKeyValue V)}
    (hc : t.buckets[kv.key.toNat % t.numBuckets]? = some chain) :
    kv ∈ t.entries ↔ kv ∈ chain.toList := by
  rw [HashTable.entries, List.mem_flatMap]
  constructor
  · rintro ⟨chain', hmem, hkv⟩
    obtain ⟨i, hi⟩ := List.mem_iff_getElem?.mp hmem
    have hplace := h.place i chain' hi kv hkv
    rw [hplace, hi] at hc
    rwa [← Option.some.inj hc]
  · exact fun hkv => ⟨chain, List.mem_of_getElem? hc, hkv⟩

/-- The table around one bucket: what comes before and after its chain. -/
theorem HashTable.entries_setBucket {i : ℕ} {chain : LinkedList (HTKeyValue V)}
    (hi : t.buckets[i]? = some chain) :
    ∃ before after, t.entries = before ++ chain.toList ++ after ∧
      ∀ chain', (t.setBucket i chain').entries = before ++ chain'.toList ++ after := by
  obtain ⟨hlt, hget⟩ := List.getElem?_eq_some_iff.mp hi
  have hsplit : t.buckets = t.buckets.take i ++ chain :: t.buckets.drop (i + 1) := by
    rw [← hget, List.cons_getElem_drop_succ, List.take_append_drop]
  refine ⟨(t.buckets.take i).flatMap LinkedList.toList,
    (t.buckets.drop (i + 1)).flatMap LinkedList.toList, ?_, fun chain' => ?_⟩
  · conv_lhs => rw [HashTable.entries, hsplit]
    rw [List.flatMap_append, List.flatMap_cons, List.append_assoc]
  · rw [HashTable.entries, HashTable.setBucket, List.set_eq_take_append_cons_drop, if_pos hlt,
      List.flatMap_append, List.flatMap_cons, List.append_assoc]

/-- A new chain in one bucket keeps the invariant, given what the bucket owes. -/
theorem HashTable.WF.setBucket (h : t.WF) {i n : ℕ} {chain : LinkedList (HTKeyValue V)}
    (hwf : chain.WF) (hplace : ∀ kv ∈ chain.toList, kv.key.toNat % t.numBuckets = i)
    (hdistinct : DistinctKeys (t.setBucket i chain).entries)
    (hn : n = (t.setBucket i chain).entries.length) (hfits : n < 2 ^ 32) :
    HashTable.WF { t.setBucket i chain with numElements := n } where
  chains := fun c hc => by
    rcases List.mem_or_eq_of_mem_set hc with hc | rfl
    · exact h.chains c hc
    · exact hwf
  size := by simp only [HashTable.setBucket, List.length_set]; exact h.size
  pos := h.pos
  small := h.small
  place := fun j c hc kv hkv => by
    simp only [HashTable.setBucket, List.getElem?_set] at hc
    by_cases hij : i = j
    · subst hij
      rw [if_pos rfl] at hc
      split at hc
      · obtain rfl := Option.some.inj hc
        exact hplace kv hkv
      · cases hc
    · rw [if_neg hij] at hc
      exact h.place j c hc kv hkv
  distinct := hdistinct
  count := hn
  fits := hn ▸ hfits

/-! ## Searching a chain -/

/-- What `ChainContainsKey` finds, from a cursor on. -/
theorem chainLoop_spec {chain : LinkedList (HTKeyValue V)} (key : UInt64) :
    ∀ {post pre : List (Addr × HTKeyValue V)} {a : Addr} {kv : HTKeyValue V} (fuel : ℕ),
      Repr chain (pre ++ (a, kv) :: post) → post.length < fuel →
      (∃ pre' b old post', (a, kv) :: post = pre' ++ (b, old) :: post' ∧ old.key = key ∧
        (∀ c ∈ pre', c.2.key ≠ key) ∧
        (chainLoop chain key fuel ⟨some a⟩ : Run σ _) = pure (true, ⟨some b⟩, old)) ∨
      ((∀ c ∈ (a, kv) :: post, c.2.key ≠ key) ∧ ∃ iter last,
        (chainLoop chain key fuel ⟨some a⟩ : Run σ _) = pure (false, iter, last))
  | post, pre, a, kv, 0, _, hlen => absurd hlen (Nat.not_lt_zero _)
  | post, pre, a, kv, fuel + 1, h, hlen => by
    by_cases hk : kv.key = key
    · refine .inl ⟨[], a, kv, post, rfl, hk, fun _ hc => absurd hc List.not_mem_nil, ?_⟩
      simp [chainLoop, llIteratorGetPayload_spec h, hk]
    · rcases post with _ | ⟨⟨b, kv'⟩, post⟩
      · refine .inr ⟨by simpa using hk, ⟨some a⟩, kv, ?_⟩
        simp [chainLoop, llIteratorGetPayload_spec h, hk, llIteratorNext_spec h]
      · have h' : Repr chain ((pre ++ [(a, kv)]) ++ (b, kv') :: post) := by simpa using h
        have hstep : (chainLoop chain key (fuel + 1) ⟨some a⟩ : Run σ _) =
            chainLoop chain key fuel ⟨some b⟩ := by
          simp [chainLoop, llIteratorGetPayload_spec h, hk, llIteratorNext_spec h]
        rcases chainLoop_spec key fuel h' (Nat.lt_of_succ_lt_succ hlen) with
          ⟨pre', c, old, post', hsplit, hold, hpre, hrun⟩ | ⟨hall, iter, last, hrun⟩
        · refine .inl ⟨(a, kv) :: pre', c, old, post', ?_, hold, ?_, hstep.trans hrun⟩
          · rw [hsplit, List.cons_append]
          · intro d hd
            rcases List.mem_cons.mp hd with rfl | hd
            · exact hk
            · exact hpre d hd
        · refine .inr ⟨?_, iter, last, hstep.trans hrun⟩
          intro d hd
          rcases List.mem_cons.mp hd with rfl | hd
          · exact hk
          · exact hall d hd

/-- `ChainContainsKey` from the head of a non-empty chain. -/
theorem chainContainsKey_spec {chain : LinkedList (HTKeyValue V)} {c : Addr × HTKeyValue V}
    {cs : List (Addr × HTKeyValue V)} (h : Repr chain (c :: cs)) (key : UInt64) :
    (∃ pre b old post, c :: cs = pre ++ (b, old) :: post ∧ old.key = key ∧
      (chainContainsKey chain ⟨some c.1⟩ key : Run σ _) = pure (true, ⟨some b⟩, old)) ∨
    ((∀ d ∈ c :: cs, d.2.key ≠ key) ∧ ∃ iter last,
      (chainContainsKey chain ⟨some c.1⟩ key : Run σ _) = pure (false, iter, last)) := by
  have hlen := h.links.length_le_fresh h.nodup
  rcases chainLoop_spec (σ := σ) key chain.nodes.fresh
      (show Repr chain ([] ++ c :: cs) from h) hlen with
    ⟨pre, b, old, post, hsplit, hold, -, hrun⟩ | hmiss
  · exact .inl ⟨pre, b, old, post, hsplit, hold, hrun⟩
  · exact .inr hmiss

/-- A key missing from the chain it hashes to is missing from the table. -/
theorem HashTable.WF.absent (h : t.WF) {key : UInt64} {chain : LinkedList (HTKeyValue V)}
    (hc : t.buckets[key.toNat % t.numBuckets]? = some chain)
    (hmiss : ∀ kv ∈ chain.toList, kv.key ≠ key) : ∀ e ∈ t.entries, e.key ≠ key := by
  rintro e he rfl
  exact hmiss e ((h.mem_entries hc).mp he) rfl

/-! ## Lookup -/

/-- `LookupHashTable` for every sequence of verdicts: it finds the pair of a key, or reports
that there is none, or that there was no memory for an iterator. -/
theorem lookupHashTable_attempt (h : t.WF) (key : UInt64) :
    (∃ kv ∈ t.entries, kv.key = key ∧ ∀ s : Schedule, lookupHashTable t key s =
      .ok (if verdict s then (1, some kv) else (-1, none), s.tail)) ∨
    ((∀ e ∈ t.entries, e.key ≠ key) ∧ ∀ s : Schedule, ∃ code s',
      lookupHashTable t key s = .ok ((code, none), s') ∧ (code = 0 ∨ code = -1) ∧
        (s = [] → code = 0 ∧ s' = [])) := by
  obtain ⟨chain, hc, hwf⟩ := h.bucketOf key
  rcases hcells : chain.cells with _ | ⟨c, cs⟩
  · have hlist : chain.toList = [] := by rw [LinkedList.toList, hcells]; rfl
    have hn : chain.numElements = 0 := by rw [hwf.numElements_eq, hlist]; rfl
    refine .inr ⟨h.absent hc (by simp [hlist]), fun s => ⟨0, s, ?_, .inl rfl, fun hs => ⟨rfl, hs⟩⟩⟩
    simp [lookupHashTable, h.hashKey, bucketAt_of hc, numElementsInLinkedList, hn]
  · have hrepr : Repr chain (c :: cs) := hcells ▸ hwf
    have hn : chain.numElements ≠ 0 := by rw [hrepr.count]; simp
    rcases chainContainsKey_spec (σ := Schedule) hrepr key with
      ⟨pre, b, old, post, hsplit, hold, hrun⟩ | ⟨hall, iter, last, hrun⟩
    · refine .inl ⟨old, ?_, hold, fun s => ?_⟩
      · have hc' := hc
        rw [← hold] at hc'
        rw [h.mem_entries hc', hrepr.toList_eq, hsplit]
        simp
      · have hit := llMakeIterator_spec hrepr s
        cases hs : verdict s <;> rw [hs] at hit <;>
          simp [lookupHashTable, h.hashKey, bucketAt_of hc, numElementsInLinkedList, hn,
            Run.bind_ok hit, hrun]
    · refine .inr ⟨h.absent hc ?_, fun s => ?_⟩
      · rw [hrepr.toList_eq]
        intro kv hkv
        obtain ⟨d, hd, rfl⟩ := List.mem_map.mp hkv
        exact hall d hd
      · have hit := llMakeIterator_spec hrepr s
        cases hs : verdict s with
        | false =>
          rw [hs] at hit
          refine ⟨-1, s.tail, ?_, .inr rfl, ?_⟩
          · simp [lookupHashTable, h.hashKey, bucketAt_of hc, numElementsInLinkedList, hn,
              Run.bind_ok hit]
          · rintro rfl
            cases hs
        | true =>
          rw [hs] at hit
          refine ⟨0, s.tail, ?_, .inl rfl, ?_⟩
          · simp [lookupHashTable, h.hashKey, bucketAt_of hc, numElementsInLinkedList, hn,
              Run.bind_ok hit, hrun]
          · rintro rfl
            exact ⟨rfl, rfl⟩

/-- `LookupHashTable` finds the pair of a key, or reports 0. -/
theorem lookupHashTable_yields (h : t.WF) (key : UInt64) :
    (∃ kv ∈ t.entries, kv.key = key ∧ Yields (lookupHashTable t key) (1, some kv)) ∨
    ((∀ e ∈ t.entries, e.key ≠ key) ∧ Yields (lookupHashTable t key) (0, none)) := by
  rcases lookupHashTable_attempt h key with ⟨kv, hkv, hkey, hrun⟩ | ⟨hmiss, hrun⟩
  · exact .inl ⟨kv, hkv, hkey, hrun []⟩
  · obtain ⟨code, s', hrun, -, hend⟩ := hrun []
    obtain ⟨rfl, rfl⟩ := hend rfl
    exact .inr ⟨hmiss, hrun⟩

/-- `LookupHashTable` is lookup in the finite map. -/
theorem lookupHashTable_toFinmap (h : t.WF) (key : UInt64) :
    Yields (lookupHashTable t key)
      (match t.toFinmap.lookup key with
        | some v => (1, some ⟨key, v⟩)
        | none => (0, none)) := by
  rcases lookupHashTable_yields h key with ⟨kv, hkv, rfl, hrun⟩ | ⟨hmiss, hrun⟩
  · rw [HashTable.toFinmap, lookup_asFinmap_of_mem h.distinct hkv]
    exact hrun
  · rw [HashTable.toFinmap, lookup_asFinmap_of_absent hmiss]
    exact hrun

/-! ## Insertion into a chain -/

/-- A pair with a fresh key, pushed in front of its chain. -/
theorem HashTable.WF.push (h : t.WF) (hroom : t.numElements + 1 < 2 ^ 32) {kv : HTKeyValue V}
    {chain chain' : LinkedList (HTKeyValue V)}
    (hc : t.buckets[kv.key.toNat % t.numBuckets]? = some chain) (hwf : chain'.WF)
    (hlist : chain'.toList = kv :: chain.toList) (hmiss : ∀ e ∈ t.entries, e.key ≠ kv.key) :
    HashTable.WF { t.setBucket (kv.key.toNat % t.numBuckets) chain' with
      numElements := u32 (t.numElements + 1) } ∧
    (t.setBucket (kv.key.toNat % t.numBuckets) chain').entries.Perm (kv :: t.entries) := by
  obtain ⟨before, after, hent, hset⟩ := HashTable.entries_setBucket hc
  have hperm : (t.setBucket (kv.key.toNat % t.numBuckets) chain').entries.Perm
      (kv :: t.entries) := by
    rw [hset, hlist, hent, List.append_assoc, List.append_assoc]
    exact List.perm_middle
  have hlen := hperm.length_eq
  rw [List.length_cons, ← h.count] at hlen
  refine ⟨h.setBucket hwf ?_ ?_ ?_ ?_, hperm⟩
  · intro e he
    rw [hlist] at he
    rcases List.mem_cons.mp he with rfl | he
    · rfl
    · exact h.place _ _ hc e he
  · exact (distinctKeys_cons.mpr ⟨hmiss, h.distinct⟩).perm hperm.symm
  · rw [u32_of_lt hroom, hlen]
  · exact u32_lt _

/-- A chain is no longer than the table has elements. -/
theorem HashTable.WF.chain_length_le (h : t.WF) {i : ℕ} {chain : LinkedList (HTKeyValue V)}
    (hi : t.buckets[i]? = some chain) : chain.toList.length ≤ t.numElements := by
  obtain ⟨before, after, hent, -⟩ := HashTable.entries_setBucket hi
  rw [h.count, hent, List.length_append, List.length_append]
  omega

/-- The pairs of a table, bucket by bucket, after one has been pushed in front of its chain. -/
def placed (numBuckets : ℕ) (kv : HTKeyValue V) (entries : List (HTKeyValue V)) :
    List (HTKeyValue V) :=
  entries.takeWhile (fun e => e.key.toNat % numBuckets < kv.key.toNat % numBuckets) ++
    kv :: entries.dropWhile fun e => e.key.toNat % numBuckets < kv.key.toNat % numBuckets

theorem placed_perm (numBuckets : ℕ) (kv : HTKeyValue V) (entries : List (HTKeyValue V)) :
    (placed numBuckets kv entries).Perm (kv :: entries) := by
  refine List.perm_middle.trans ?_
  rw [List.takeWhile_append_dropWhile]

/-- A pair in one of the first buckets has an earlier bucket number. -/
theorem HashTable.WF.bucket_lt (h : t.WF) {i : ℕ} {e : HTKeyValue V}
    (he : e ∈ (t.buckets.take i).flatMap LinkedList.toList) :
    e.key.toNat % t.numBuckets < i := by
  obtain ⟨chain, hchain, hmem⟩ := List.mem_flatMap.mp he
  obtain ⟨j, hj⟩ := List.mem_iff_getElem?.mp hchain
  rw [List.getElem?_take] at hj
  split at hj
  · rename_i hlt
    rw [h.place j chain hj e hmem]
    exact hlt
  · cases hj

/-- The others do not. -/
theorem HashTable.WF.le_bucket (h : t.WF) {i : ℕ} {e : HTKeyValue V}
    (he : e ∈ (t.buckets.drop i).flatMap LinkedList.toList) :
    i ≤ e.key.toNat % t.numBuckets := by
  obtain ⟨chain, hchain, hmem⟩ := List.mem_flatMap.mp he
  obtain ⟨j, hj⟩ := List.mem_iff_getElem?.mp hchain
  rw [List.getElem?_drop] at hj
  rw [h.place (i + j) chain hj e hmem]
  exact Nat.le_add_right i j

/-- Where a pair that is pushed in front of its chain comes to stand. -/
theorem HashTable.WF.entries_push (h : t.WF) {kv : HTKeyValue V}
    {chain chain' : LinkedList (HTKeyValue V)}
    (hc : t.buckets[kv.key.toNat % t.numBuckets]? = some chain)
    (hlist : chain'.toList = kv :: chain.toList) :
    (t.setBucket (kv.key.toNat % t.numBuckets) chain').entries =
      placed t.numBuckets kv t.entries := by
  obtain ⟨hlt, hget⟩ := List.getElem?_eq_some_iff.mp hc
  have hdrop : t.buckets.drop (kv.key.toNat % t.numBuckets) =
      chain :: t.buckets.drop (kv.key.toNat % t.numBuckets + 1) := by
    rw [← hget, List.cons_getElem_drop_succ]
  have hentries : t.entries =
      (t.buckets.take (kv.key.toNat % t.numBuckets)).flatMap LinkedList.toList ++
        (t.buckets.drop (kv.key.toNat % t.numBuckets)).flatMap LinkedList.toList := by
    rw [← List.flatMap_append, List.take_append_drop]
    rfl
  have hbefore : ∀ e ∈ (t.buckets.take (kv.key.toNat % t.numBuckets)).flatMap LinkedList.toList,
      decide (e.key.toNat % t.numBuckets < kv.key.toNat % t.numBuckets) = true :=
    fun e he => decide_eq_true (h.bucket_lt he)
  have hafter : ∀ e ∈ (t.buckets.drop (kv.key.toNat % t.numBuckets)).flatMap LinkedList.toList,
      ¬ decide (e.key.toNat % t.numBuckets < kv.key.toNat % t.numBuckets) = true :=
    fun e he => by simpa using h.le_bucket he
  rw [placed, hentries, List.takeWhile_append_of_pos hbefore, List.dropWhile_append_of_pos hbefore]
  rw [List.takeWhile_eq_nil_iff.mpr fun hne => hafter _ (List.getElem_mem hne),
    List.dropWhile_eq_self_iff.mpr fun hne => hafter _ (List.getElem_mem hne)]
  rw [HashTable.entries, HashTable.setBucket, List.set_eq_take_append_cons_drop, if_pos hlt,
    List.flatMap_append, List.flatMap_cons, hlist, hdrop, List.flatMap_cons, List.append_nil]
  rfl

/-- How many times the insertion of a fresh key calls `malloc`, when the table has these pairs:
once more if there is one in the bucket of the key. -/
def insertMallocs (numBuckets : ℕ) (entries : List (HTKeyValue V)) (kv : HTKeyValue V) : ℕ :=
  if entries.any fun e => e.key.toNat % numBuckets = kv.key.toNat % numBuckets then 3 else 2

theorem HashTable.WF.insertMallocs_eq (h : t.WF) {kv : HTKeyValue V}
    {chain : LinkedList (HTKeyValue V)}
    (hc : t.buckets[kv.key.toNat % t.numBuckets]? = some chain) :
    insertMallocs t.numBuckets t.entries kv = if chain.toList = [] then 2 else 3 := by
  have hany : (t.entries.any fun e => e.key.toNat % t.numBuckets = kv.key.toNat % t.numBuckets) =
      true ↔ chain.toList ≠ [] := by
    rw [List.any_eq_true]
    constructor
    · rintro ⟨e, he, hsame⟩ hnil
      rw [decide_eq_true_iff] at hsame
      rw [h.mem_entries (hsame ▸ hc), hnil] at he
      cases he
    · intro hne
      obtain ⟨e, he⟩ := List.exists_mem_of_ne_nil _ hne
      have hplace := h.place _ _ hc e he
      exact ⟨e, (h.mem_entries (hplace ▸ hc)).mpr he, decide_eq_true hplace⟩
  unfold insertMallocs
  by_cases hnil : chain.toList = []
  · rw [if_pos hnil, if_neg fun hs => hany.mp hs hnil]
  · rw [if_neg hnil, if_pos (hany.mpr hnil)]

/-- What `InsertHashTable` does with a fresh key once growing is out of the way: the pair
goes in, or a `malloc` fails and the table stays as it is. -/
theorem insertIntoChain_fresh (h : t.WF) (hroom : t.numElements + 1 < 2 ^ 32)
    {kv : HTKeyValue V} (hmiss : ∀ e ∈ t.entries, e.key ≠ kv.key) :
    ∃ t', Yields (insertIntoChain t kv) (1, t', none) ∧ t'.WF ∧ t'.numBuckets = t.numBuckets ∧
      t'.entries = placed t.numBuckets kv t.entries ∧
      ∀ s, ∃ result s', insertIntoChain t kv s = .ok (result, s') ∧
        (served (insertMallocs t.numBuckets t.entries kv) s = true ∧ result = (1, t', none) ∧
            s' = s.drop (insertMallocs t.numBuckets t.entries kv) ∨
          served (insertMallocs t.numBuckets t.entries kv) s = false ∧ result = (0, t, none) ∧
            s' = pastRefused (insertMallocs t.numBuckets t.entries kv) s) := by
  obtain ⟨chain, hc, hwf⟩ := h.bucketOf kv.key
  have hchain := h.chain_length_le hc
  rw [h.insertMallocs_eq hc]
  rcases hcells : chain.cells with _ | ⟨c, cs⟩
  · have hrepr : Repr chain [] := hcells ▸ hwf
    have hn : chain.numElements = 0 := hrepr.count
    obtain ⟨chain', hrepr', hpush⟩ := pushLinkedList_spec hrepr (by simp) kv
    have hlist : chain'.toList = kv :: chain.toList := by
      rw [hrepr'.toList_eq, hrepr.toList_eq]
      rfl
    obtain ⟨hwf', -⟩ := h.push hroom hc hrepr'.wf hlist hmiss
    refine ⟨_, ?_, hwf', rfl, h.entries_push hc hlist, fun s => ?_⟩
    · simp [Run.Returns, insertIntoChain, h.hashKey, bucketAt_of hc, numElementsInLinkedList, hn,
        Run.bind_apply, malloc_apply, hpush]
    · rw [if_pos (show chain.toList = [] from hrepr.toList_eq)]
      cases hs : verdict s
      · refine ⟨(0, t, none), s.tail, ?_,
          .inr ⟨by simp [served, hs], rfl, by simp [pastRefused, hs]⟩⟩
        simp [insertIntoChain, h.hashKey, bucketAt_of hc, Run.bind_apply, malloc_apply, hs]
      · cases hs' : verdict s.tail
        · refine ⟨(0, t, none), s.tail.tail, ?_, .inr ⟨by simp [served, hs, hs'], rfl,
          by simp [pastRefused, hs, hs']⟩⟩
          simp [insertIntoChain, h.hashKey, bucketAt_of hc, numElementsInLinkedList, hn,
            Run.bind_apply, malloc_apply, hpush, hs, hs']
        · refine ⟨_, s.tail.tail, ?_,
            .inl ⟨by simp [served, hs, hs'], rfl, by simp [← List.drop_one]⟩⟩
          simp [insertIntoChain, h.hashKey, bucketAt_of hc, numElementsInLinkedList, hn,
            Run.bind_apply, malloc_apply, hpush, hs, hs']
  · have hrepr : Repr chain (c :: cs) := hcells ▸ hwf
    have hn : chain.numElements ≠ 0 := by rw [hrepr.count]; simp
    have hit := llMakeIterator_spec hrepr
    rcases chainContainsKey_spec (σ := Schedule) hrepr kv.key with
      ⟨pre, b, old, post, hsplit, hold, -⟩ | ⟨-, iter, last, hrun⟩
    · refine absurd hold (hmiss old ?_)
      have hc' := hc
      rw [← hold] at hc'
      rw [h.mem_entries hc', hrepr.toList_eq, hsplit]
      simp
    · have hsmall : (c :: cs).length + 1 < 2 ^ 32 := by
        rw [hrepr.toList_eq, List.length_map] at hchain
        omega
      obtain ⟨chain', hrepr', hpush⟩ := pushLinkedList_spec hrepr hsmall kv
      have hlist : chain'.toList = kv :: chain.toList := by
        rw [hrepr'.toList_eq, hrepr.toList_eq]
        rfl
      obtain ⟨hwf', -⟩ := h.push hroom hc hrepr'.wf hlist hmiss
      refine ⟨_, ?_, hwf', rfl, h.entries_push hc hlist, fun s => ?_⟩
      · simp [Run.Returns, insertIntoChain, h.hashKey, bucketAt_of hc, numElementsInLinkedList, hn,
          Run.bind_apply, malloc_apply, hit, hrun, hpush]
      · rw [if_neg (show chain.toList ≠ [] by rw [hrepr.toList_eq]; simp)]
        cases hs : verdict s
        · refine ⟨(0, t, none), s.tail, ?_,
          .inr ⟨by simp [served, hs], rfl, by simp [pastRefused, hs]⟩⟩
          simp [insertIntoChain, h.hashKey, bucketAt_of hc, Run.bind_apply, malloc_apply, hs]
        · cases hs' : verdict s.tail
          · refine ⟨(0, t, none), s.tail.tail, ?_, .inr ⟨by simp [served, hs, hs'], rfl,
          by simp [pastRefused, hs, hs']⟩⟩
            simp [insertIntoChain, h.hashKey, bucketAt_of hc, numElementsInLinkedList, hn,
              Run.bind_apply, malloc_apply, hit, hs, hs']
          · cases hs'' : verdict s.tail.tail
            · refine ⟨(0, t, none), s.tail.tail.tail, ?_,
                .inr ⟨by simp [served, hs, hs', hs''], rfl, by simp [pastRefused, hs, hs', hs'']⟩⟩
              simp [insertIntoChain, h.hashKey, bucketAt_of hc, numElementsInLinkedList, hn,
                Run.bind_apply, malloc_apply, hit, hrun, hpush, hs, hs', hs'']
            · refine ⟨_, s.tail.tail.tail, ?_,
                .inl ⟨by simp [served, hs, hs', hs''], rfl, by simp [← List.drop_one]⟩⟩
              simp [insertIntoChain, h.hashKey, bucketAt_of hc, numElementsInLinkedList, hn,
                Run.bind_apply, malloc_apply, hit, hrun, hpush, hs, hs', hs'']

/-- A chain in which another pair has replaced one with the same key, and one in which none
has yet. -/
theorem HashTable.WF.replace (h : t.WF) {kv old : HTKeyValue V} {chain gone chain' :
    LinkedList (HTKeyValue V)} {pre post : List (HTKeyValue V)}
    (hc : t.buckets[kv.key.toNat % t.numBuckets]? = some chain) (hkey : old.key = kv.key)
    (hlist : chain.toList = pre ++ old :: post) (hgone : gone.toList = pre ++ post)
    (hwf : chain'.WF) (hlist' : chain'.toList = kv :: (pre ++ post)) :
    ∃ rest, t.entries.Perm (old :: rest) ∧
      (t.setBucket (kv.key.toNat % t.numBuckets) gone).entries.Perm rest ∧
      (t.setBucket (kv.key.toNat % t.numBuckets) chain').entries.Perm (kv :: rest) ∧
      (t.setBucket (kv.key.toNat % t.numBuckets) chain').WF := by
  obtain ⟨before, after, hent, hset⟩ := HashTable.entries_setBucket hc
  have hold : t.entries.Perm (old :: (before ++ (pre ++ post) ++ after)) := by
    rw [hent, hlist]
    simp only [List.append_assoc, List.cons_append]
    rw [← List.append_assoc before, ← List.append_assoc before]
    exact List.perm_middle
  have hnew : (t.setBucket (kv.key.toNat % t.numBuckets) chain').entries.Perm
      (kv :: (before ++ (pre ++ post) ++ after)) := by
    rw [hset, hlist', List.append_assoc, List.append_assoc]
    exact List.perm_middle
  have hgone' : (t.setBucket (kv.key.toNat % t.numBuckets) gone).entries.Perm
      (before ++ (pre ++ post) ++ after) := by
    rw [hset, hgone]
  have hfits : t.numElements < 2 ^ 32 := by
    rw [h.count]
    exact h.fits
  refine ⟨_, hold, hgone', hnew, h.setBucket hwf ?_ ?_ ?_ hfits⟩
  · intro e he
    rw [hlist'] at he
    rcases List.mem_cons.mp he with rfl | he
    · rfl
    · refine h.place _ _ hc e ?_
      rw [hlist]
      exact List.mem_append.mpr ((List.mem_append.mp he).imp_right (List.mem_cons_of_mem _))
  · obtain ⟨hfresh, hrest⟩ := distinctKeys_cons.mp (h.distinct.perm hold)
    rw [hkey] at hfresh
    exact (distinctKeys_cons.mpr ⟨hfresh, hrest⟩).perm hnew.symm
  · rw [h.count, hold.length_eq, hnew.length_eq, List.length_cons, List.length_cons]

/-- What `InsertHashTable` does with a key of the table once growing is out of the way: its
node goes and the new pair is pushed, or a `malloc` fails. If it is the one for the new node,
the table has neither pair and the counter stays. -/
theorem insertIntoChain_present (h : t.WF) {kv : HTKeyValue V}
    (hin : ¬ ∀ e ∈ t.entries, e.key ≠ kv.key) :
    ∃ t' gone old rest, old.key = kv.key ∧ t.entries.Perm (old :: rest) ∧ t'.WF ∧
      t'.numBuckets = t.numBuckets ∧ t'.entries.Perm (kv :: rest) ∧
      gone.numElements = t.numElements ∧ gone.entries.Perm rest ∧
      ∀ s, ∃ n, insertIntoChain t kv s = .ok (if served 2 s then
        (2, if served 3 s then t' else gone, some old) else (0, t, none), s.drop n) := by
  obtain ⟨chain, hc, hwf⟩ := h.bucketOf kv.key
  rcases hcells : chain.cells with _ | ⟨c, cs⟩
  · have hrepr : Repr chain [] := hcells ▸ hwf
    exact absurd (h.absent hc (by simp [hrepr.toList_eq])) hin
  have hrepr : Repr chain (c :: cs) := hcells ▸ hwf
  have hn : chain.numElements ≠ 0 := by rw [hrepr.count]; simp
  have hit := llMakeIterator_spec hrepr
  rcases chainContainsKey_spec (σ := Schedule) hrepr kv.key with
    ⟨pre, b, old, post, hsplit, hold, hrun⟩ | ⟨hall, -⟩
  · rw [hsplit] at hrepr
    obtain ⟨chain₁, hrepr₁, hdel⟩ := llIteratorDelete_spec (σ := Schedule) hrepr
    have hsmall : (pre ++ post).length + 1 < 2 ^ 32 := by
      have := hrepr.small
      simp only [List.length_append, List.length_cons] at this ⊢
      omega
    obtain ⟨chain₂, hrepr₂, hpush⟩ := pushLinkedList_spec hrepr₁ hsmall kv
    have hlist : chain.toList = pre.map Prod.snd ++ old :: post.map Prod.snd := by
      rw [hrepr.toList_eq, List.map_append, List.map_cons]
    have hlist₁ : chain₁.toList = pre.map Prod.snd ++ post.map Prod.snd := by
      rw [hrepr₁.toList_eq, List.map_append]
    have hlist₂ : chain₂.toList = kv :: (pre.map Prod.snd ++ post.map Prod.snd) := by
      rw [hrepr₂.toList_eq, List.map_cons, List.map_append]
    obtain ⟨rest, hperm, hgone, hnew, hwf'⟩ :=
      h.replace hc hold hlist hlist₁ hrepr₂.wf hlist₂
    refine ⟨t.setBucket (kv.key.toNat % t.numBuckets) chain₂,
      t.setBucket (kv.key.toNat % t.numBuckets) chain₁, old, rest, hold, hperm, hwf', rfl, hnew,
      rfl,
      hgone, fun s => ?_⟩
    have htwo : s.drop 2 = s.tail.tail := by simp [← List.drop_one]
    have hthree : s.drop 3 = s.tail.tail.tail := by simp [← List.drop_one]
    cases hs : verdict s
    · refine ⟨1, ?_⟩
      simp [insertIntoChain, h.hashKey, bucketAt_of hc, Run.bind_apply, malloc_apply, hs, served]
    · cases hs' : verdict s.tail
      · refine ⟨2, ?_⟩
        rw [htwo]
        simp [insertIntoChain, h.hashKey, bucketAt_of hc, numElementsInLinkedList, hn,
          Run.bind_apply, malloc_apply, hit, hs, hs', served]
      · refine ⟨3, ?_⟩
        rw [hthree]
        cases hs'' : verdict s.tail.tail <;>
          simp [insertIntoChain, h.hashKey, bucketAt_of hc, numElementsInLinkedList, hn,
            Run.bind_apply, malloc_apply, hit, hrun, hdel, hpush, hs, hs', hs'', served]
  · refine absurd (h.absent hc ?_) hin
    rw [hrepr.toList_eq]
    intro e he
    obtain ⟨d, hd, rfl⟩ := List.mem_map.mp he
    exact hall d hd

/-- What `InsertHashTable` does once growing is out of the way. -/
theorem insertIntoChain_yields (h : t.WF) (hroom : t.numElements + 1 < 2 ^ 32)
    (kv : HTKeyValue V) :
    (∃ t', Yields (insertIntoChain t kv) (1, t', none) ∧ t'.WF ∧
      t'.numBuckets = t.numBuckets ∧ t'.entries.Perm (kv :: t.entries) ∧
      ∀ e ∈ t.entries, e.key ≠ kv.key) ∨
    (∃ t' old rest, Yields (insertIntoChain t kv) (2, t', some old) ∧ t'.WF ∧
      t'.numBuckets = t.numBuckets ∧ old.key = kv.key ∧ t.entries.Perm (old :: rest) ∧
      t'.entries.Perm (kv :: rest)) := by
  by_cases hmiss : ∀ e ∈ t.entries, e.key ≠ kv.key
  · obtain ⟨t', hrun, hwf, hnb, hent, -⟩ := insertIntoChain_fresh h hroom hmiss
    exact .inl ⟨t', hrun, hwf, hnb, hent ▸ placed_perm _ _ _, hmiss⟩
  · obtain ⟨t', gone, old, rest, hkey, hperm, hwf, hnb, hperm', -, -, hrun⟩ :=
      insertIntoChain_present h hmiss
    obtain ⟨n, hrun⟩ := hrun []
    rw [List.drop_nil] at hrun
    exact .inr ⟨t', old, rest, hrun, hwf, hnb, hkey, hperm, hperm'⟩

/-! ## Removal -/

/-- In a list whose elements have distinct images, an image marks one place. -/
theorem split_unique {β κ : Type} {f : β → κ} : ∀ {pre pre' : List β} {x x' : β}
    {post post' : List β}, pre ++ x :: post = pre' ++ x' :: post' →
      ((pre ++ x :: post).map f).Nodup → f x = f x' → pre = pre' ∧ x = x' ∧ post = post'
  | [], [], _, _, _, _, h, _, _ => ⟨rfl, List.cons.inj h⟩
  | [], y :: pre', x, x', post, post', h, hnd, hf => by
    obtain ⟨-, hrest⟩ := List.cons.inj h
    rw [List.nil_append, List.map_cons, List.nodup_cons, hrest, hf] at hnd
    exact absurd (List.mem_map.mpr ⟨x', by simp, rfl⟩) hnd.1
  | y :: pre, [], x, x', post, post', h, hnd, hf => by
    obtain ⟨hy, hrest⟩ := List.cons.inj h
    rw [List.cons_append, List.map_cons, List.nodup_cons, hy, ← hf] at hnd
    exact absurd (List.mem_map.mpr ⟨x, by simp, rfl⟩) hnd.1
  | y :: pre, y' :: pre', x, x', post, post', h, hnd, hf => by
    obtain ⟨hy, hrest⟩ := List.cons.inj h
    obtain ⟨hpre, hx⟩ := split_unique hrest (List.nodup_cons.mp hnd).2 hf
    exact ⟨by rw [hy, hpre], hx⟩

/-- The keys of one chain are distinct. -/
theorem HashTable.WF.chain_distinct (h : t.WF) {i : ℕ} {chain : LinkedList (HTKeyValue V)}
    (hi : t.buckets[i]? = some chain) : DistinctKeys chain.toList := by
  obtain ⟨before, after, hent, -⟩ := HashTable.entries_setBucket hi
  have hd := h.distinct
  rw [hent, DistinctKeys, List.map_append, List.map_append, List.nodup_append,
    List.nodup_append] at hd
  exact hd.1.2.1

/-- `RemoveFromHashTable` on the key of a pair of the table frees exactly the node that
holds the pair; without memory for its iterator it leaves the table alone. -/
theorem removeFromHashTable_attempt (h : t.WF) {i : ℕ} {chain : LinkedList (HTKeyValue V)}
    {pre post : List (Addr × HTKeyValue V)} {a : Addr} {kv : HTKeyValue V}
    (hi : t.buckets[i]? = some chain) (hrepr : Repr chain (pre ++ (a, kv) :: post)) :
    ∃ chain', Repr chain' (pre ++ post) ∧
      HashTable.WF { t.setBucket i chain' with numElements := t.numElements - 1 } ∧
      t.entries.Perm (kv :: (t.setBucket i chain').entries) ∧
      ∀ s, removeFromHashTable t kv.key s = .ok (if verdict s then
        (1, { t.setBucket i chain' with numElements := t.numElements - 1 }, some kv)
        else (-1, t, none), s.tail) := by
  have hplace : kv.key.toNat % t.numBuckets = i :=
    h.place i chain hi kv (by rw [hrepr.toList_eq]; simp)
  obtain ⟨before, after, hent, hset⟩ := HashTable.entries_setBucket hi
  obtain ⟨chain', hrepr', hdel⟩ := llIteratorDelete_spec (σ := Schedule) hrepr
  have hperm : t.entries.Perm (kv :: (t.setBucket i chain').entries) := by
    rw [hset, hent, hrepr.toList_eq, hrepr'.toList_eq, List.map_append, List.map_cons,
      List.map_append]
    simp only [List.append_assoc, List.cons_append]
    rw [← List.append_assoc before, ← List.append_assoc before]
    exact List.perm_middle
  have hlen := hperm.length_eq
  rw [List.length_cons, ← h.count] at hlen
  have hfits : t.numElements < 2 ^ 32 := h.count ▸ h.fits
  refine ⟨chain', hrepr', h.setBucket hrepr'.wf ?_ ?_ ?_ ?_, hperm, ?_⟩
  · intro e he
    refine h.place i chain hi e ?_
    rw [hrepr'.toList_eq] at he
    rw [hrepr.toList_eq]
    obtain ⟨d, hd, rfl⟩ := List.mem_map.mp he
    exact List.mem_map.mpr ⟨d, by simpa using List.mem_append.mp hd |>.imp_right .inr, rfl⟩
  · exact (distinctKeys_cons.mp (h.distinct.perm hperm)).2
  · rw [hlen]
    rfl
  · omega
  · rcases hcells : pre ++ (a, kv) :: post with _ | ⟨c, cs⟩
    · simp at hcells
    have hrepr₀ : Repr chain (c :: cs) := hcells ▸ hrepr
    have hn : chain.numElements ≠ 0 := by rw [hrepr₀.count]; simp
    have hit := llMakeIterator_spec hrepr₀
    have hsub : u32Sub t.numElements 1 = t.numElements - 1 := u32Sub_of_le (by omega) hfits
    rcases chainContainsKey_spec (σ := Schedule) hrepr₀ kv.key with
      ⟨pre', b, old, post', hsplit, hold, hrun⟩ | ⟨hall, -⟩
    · have hdis := h.chain_distinct hi
      rw [hrepr.toList_eq, DistinctKeys, List.map_map] at hdis
      obtain ⟨-, heq, -⟩ := split_unique (hcells.trans hsplit) hdis hold.symm
      obtain ⟨rfl, rfl⟩ := Prod.mk.inj heq
      intro s
      cases hs : verdict s <;>
        simp [removeFromHashTable, h.hashKey, hplace, bucketAt_of hi, numElementsInLinkedList, hn,
          Run.bind_apply, hit, hs, hrun, hdel, hsub]
    · exact absurd rfl (hall (a, kv) (by rw [← hcells]; simp))

/-- With memory enough. -/
theorem removeFromHashTable_at (h : t.WF) {i : ℕ} {chain : LinkedList (HTKeyValue V)}
    {pre post : List (Addr × HTKeyValue V)} {a : Addr} {kv : HTKeyValue V}
    (hi : t.buckets[i]? = some chain) (hrepr : Repr chain (pre ++ (a, kv) :: post)) :
    ∃ chain', Repr chain' (pre ++ post) ∧
      HashTable.WF { t.setBucket i chain' with numElements := t.numElements - 1 } ∧
      t.entries.Perm (kv :: (t.setBucket i chain').entries) ∧
      Yields (removeFromHashTable t kv.key)
        (1, { t.setBucket i chain' with numElements := t.numElements - 1 }, some kv) := by
  obtain ⟨chain', hrepr', hwf, hperm, hrun⟩ := removeFromHashTable_attempt h hi hrepr
  exact ⟨chain', hrepr', hwf, hperm, hrun []⟩

/-- `RemoveFromHashTable` of a key that is not there leaves the table alone, and reports 0
or that there was no memory for its iterator. -/
theorem removeFromHashTable_absent (h : t.WF) {key : UInt64}
    (hmiss : ∀ e ∈ t.entries, e.key ≠ key) : ∃ n, ∀ s,
      removeFromHashTable t key s = .ok ((if served n s then 0 else -1, t, none), s.drop n) := by
  obtain ⟨chain, hc, hwf⟩ := h.bucketOf key
  rcases hcells : chain.cells with _ | ⟨c, cs⟩
  · have hrepr : Repr chain [] := hcells ▸ hwf
    have hn : chain.numElements = 0 := hrepr.count
    refine ⟨0, fun s => ?_⟩
    simp [removeFromHashTable, h.hashKey, bucketAt_of hc, numElementsInLinkedList, hn, served]
  · have hrepr : Repr chain (c :: cs) := hcells ▸ hwf
    have hn : chain.numElements ≠ 0 := by rw [hrepr.count]; simp
    have hit := llMakeIterator_spec hrepr
    rcases chainContainsKey_spec (σ := Schedule) hrepr key with
      ⟨pre, b, old, post, hsplit, hold, -⟩ | ⟨-, iter, last, hrun⟩
    · have hc' := hc
      rw [← hold] at hc'
      refine absurd hold (hmiss old ((h.mem_entries hc').mpr ?_))
      rw [hrepr.toList_eq, hsplit]
      simp
    · refine ⟨1, fun s => ?_⟩
      cases hs : verdict s <;>
        simp [removeFromHashTable, h.hashKey, bucketAt_of hc, numElementsInLinkedList, hn,
          Run.bind_apply, hit, hs, hrun, served]

/-- `RemoveFromHashTable` takes out the pair of a key, or reports 0. -/
theorem removeFromHashTable_yields (h : t.WF) (key : UInt64) :
    (∃ t' kv, Yields (removeFromHashTable t key) (1, t', some kv) ∧ t'.WF ∧
      t'.numBuckets = t.numBuckets ∧ kv.key = key ∧ t.entries.Perm (kv :: t'.entries)) ∨
    ((∀ e ∈ t.entries, e.key ≠ key) ∧ Yields (removeFromHashTable t key) (0, t, none)) := by
  obtain ⟨chain, hc, hwf⟩ := h.bucketOf key
  by_cases hex : ∃ kv ∈ chain.toList, kv.key = key
  · obtain ⟨kv, hkv, rfl⟩ := hex
    obtain ⟨⟨a, kv⟩, hd, rfl⟩ := List.mem_map.mp hkv
    obtain ⟨pre, post, hsplit⟩ := List.append_of_mem hd
    have hrepr : Repr chain (pre ++ (a, kv) :: post) := hsplit ▸ hwf
    obtain ⟨chain', -, hwf', hperm, hrun⟩ := removeFromHashTable_at h hc hrepr
    exact .inl ⟨_, kv, hrun, hwf', rfl, rfl, hperm⟩
  · have hmiss := h.absent hc fun kv hkv he => hex ⟨kv, hkv, he⟩
    obtain ⟨n, hrun⟩ := removeFromHashTable_absent h hmiss
    have hrun := hrun []
    rw [served_nil, if_pos rfl, List.drop_nil] at hrun
    exact .inr ⟨hmiss, hrun⟩

end Table

end MultithreadedWebServer
