import MultithreadedWebServer.TableIter

/-!
# Growing: `ResizeHashtable` and the insertion it is part of

A resize walks the old table with an iterator, inserts every pair into a new table of
nine times as many buckets and then takes over its record. The new table is filled
through `InsertHashTable`, so the two functions are mutually recursive.

The recursion ends because a nested insertion always meets a table with fewer elements
than the one being resized: the new table holds what the iterator has passed so far.
`insertNested_yields` is the induction on that, for every well-formed table whose
counter has room, including tables where `3 * num_buckets` wraps around. Where nothing
wraps the nesting is two deep and the number of buckets is known exactly:
`insertNested_grown`.
-/

namespace MultithreadedWebServer

section Rehash

variable {σ : Type} {V : Type} {t : HashTable V}

/-! ## Empty tables -/

/-- What `AllocateHashTable` builds. -/
def HashTable.fresh (V : Type) (numBuckets : ℕ) : HashTable V :=
  ⟨numBuckets, 0, List.replicate numBuckets LinkedList.empty⟩

theorem allocateChains_yields : ∀ n : ℕ,
    Yields (allocateChains n : Run Schedule (Option (List (LinkedList (HTKeyValue V)))))
      (some (List.replicate n LinkedList.empty))
  | 0 => rfl
  | n + 1 => by
    have ih :
        (allocateChains n : Run Schedule (Option (List (LinkedList (HTKeyValue V))))) [] = _ :=
      allocateChains_yields n
    have hone : (allocateLinkedList : Run Schedule (Option (LinkedList (HTKeyValue V)))) [] = _ :=
      allocateLinkedList_yields
    simp [Run.Returns, allocateChains, Run.bind_apply, hone, ih, List.replicate_succ]

theorem allocateHashTable_yields {n : ℕ} (hn : 0 < n) :
    Yields (allocateHashTable n) (some (HashTable.fresh V n)) := by
  have h : (allocateChains n : Run Schedule (Option (List (LinkedList (HTKeyValue V))))) [] = _ :=
    allocateChains_yields n
  simp [Run.Returns, allocateHashTable, Nat.pos_iff_ne_zero.mp hn, Run.bind_apply, malloc_apply,
    h, HashTable.fresh]

@[simp] theorem HashTable.fresh_entries (n : ℕ) : (HashTable.fresh V n).entries = [] := by
  rw [entries, fresh, List.flatMap_eq_nil_iff]
  intro chain hc
  rw [List.eq_of_mem_replicate hc]
  exact repr_empty.toList_eq

@[simp] theorem HashTable.fresh_numElements (n : ℕ) : (HashTable.fresh V n).numElements = 0 := rfl

@[simp] theorem HashTable.fresh_numBuckets (n : ℕ) : (HashTable.fresh V n).numBuckets = n := rfl

theorem HashTable.wf_fresh {n : ℕ} (hn : 0 < n) (hs : n < 2 ^ 32) : (HashTable.fresh V n).WF where
  chains := fun chain hc => by
    rw [List.eq_of_mem_replicate hc]
    exact repr_empty.wf
  size := (List.length_replicate ..).symm
  pos := hn
  small := hs
  place := fun i chain hi kv hkv => by
    rw [List.eq_of_mem_replicate (List.mem_of_getElem? hi), repr_empty.toList_eq] at hkv
    exact absurd hkv List.not_mem_nil
  distinct := by rw [fresh_entries]; exact List.nodup_nil
  count := by rw [fresh_entries]; rfl
  fits := by rw [fresh_entries]; exact Nat.two_pow_pos 32

/-! ## Freeing -/

theorem drainChain_spec : ∀ {cs : List (Addr × HTKeyValue V)} {chain : LinkedList (HTKeyValue V)}
    {fuel : ℕ}, Repr chain cs → cs.length < fuel →
      ∃ chain', Repr chain' [] ∧ (drainChain fuel chain : Run σ _) = pure chain'
  | _, _, 0, _, hlen => absurd hlen (Nat.not_lt_zero _)
  | [], chain, fuel + 1, h, _ => by
    have hn : chain.numElements = 0 := h.count
    exact ⟨chain, h, by simp [drainChain, numElementsInLinkedList, hn]⟩
  | (a, kv) :: cs, chain, fuel + 1, h, hlen => by
    have hn : 0 < chain.numElements := by rw [h.count]; simp
    obtain ⟨chain', h', hpop⟩ := popLinkedList_spec (σ := σ) h
    obtain ⟨chain'', h'', hrun⟩ := drainChain_spec h' (Nat.lt_of_succ_lt_succ hlen)
    refine ⟨chain'', h'', ?_⟩
    simp [drainChain, numElementsInLinkedList, hn, hpop, hrun]

theorem freeChains_spec : ∀ {chains : List (LinkedList (HTKeyValue V))},
    (∀ chain ∈ chains, chain.WF) → (freeChains chains : Run σ PUnit) = pure ⟨⟩
  | [], _ => rfl
  | chain :: chains, h => by
    have hwf : Repr chain chain.cells := h chain List.mem_cons_self
    obtain ⟨chain', h', hrun⟩ := drainChain_spec (σ := σ) hwf
      (show chain.cells.length < chain.numElements + 1 by rw [hwf.count]; omega)
    have ih := freeChains_spec fun c hc => h c (List.mem_cons_of_mem _ hc)
    simp [freeChains, hrun, freeLinkedList_spec h', ih]

/-- `FreeHashTable` frees a well-formed table without a fault. -/
theorem freeHashTable_spec (h : t.WF) : (freeHashTable t : Run σ PUnit) = pure ⟨⟩ :=
  freeChains_spec h.chains

/-! ## One rehash -/

/-- What `ResizeHashtable` needs of the insertion, for tables with fewer than `n`
elements: a fresh pair goes in, and `G` is kept. -/
def Fills (insert : Insertion V) (G : HashTable V → Prop) (n : ℕ) : Prop :=
  ∀ (newht : HashTable V) (kv : HTKeyValue V), newht.WF → G newht → newht.numElements < n →
    (∀ e ∈ newht.entries, e.key ≠ kv.key) →
    ∃ newht', Yields (insert newht kv) (1, newht', none) ∧ newht'.WF ∧ G newht' ∧
      newht'.entries.Perm (kv :: newht.entries)

/-- The loop of `ResizeHashtable` moves everything that is still to come. -/
theorem rehash_yields {insert : Insertion V} {G : HashTable V → Prop} {n : ℕ}
    (hfill : Fills insert G n) (h : t.WF) :
    ∀ (fuel : ℕ) {it : HTIter} {rest : List (HTKeyValue V)} {newht : HashTable V},
      Cursor t it rest → rest.length < fuel → newht.WF → G newht →
      newht.numElements + rest.length ≤ n → DistinctKeys (rest ++ newht.entries) →
      ∃ newht', Yields (rehash insert t fuel it newht) (true, newht') ∧ newht'.WF ∧ G newht' ∧
        newht'.entries.Perm (rest ++ newht.entries)
  | 0, _, _, _, _, hfuel, _, _, _, _ => absurd hfuel (Nat.not_lt_zero _)
  | fuel + 1, it, [], newht, hc, _, hwf, hG, _, _ => by
    refine ⟨newht, ?_, hwf, hG, .refl _⟩
    simp [Run.Returns, rehash, htIteratorPastEnd_spec h hc]
  | fuel + 1, it, kv :: rest, newht, hc, hfuel, hwf, hG, hn, hd => by
    rw [List.length_cons] at hfuel hn
    obtain ⟨hne, hd'⟩ := distinctKeys_cons.mp hd
    obtain ⟨newht₁, hins, hwf₁, hG₁, hperm₁⟩ := hfill newht kv hwf hG (by omega)
      fun e he => hne e (List.mem_append.mpr (.inr he))
    obtain ⟨it', hnext, hc'⟩ := htIteratorNext_yields h hc
    have hcount : newht₁.numElements = newht.numElements + 1 := by
      rw [hwf₁.count, hperm₁.length_eq, hwf.count, List.length_cons]
    have hmove : (kv :: (rest ++ newht.entries)).Perm (rest ++ newht₁.entries) :=
      List.perm_middle.symm.trans (hperm₁.symm.append_left rest)
    obtain ⟨newht₂, hrun, hwf₂, hG₂, hperm₂⟩ :=
      rehash_yields hfill h fuel hc' (by omega) hwf₁ hG₁ (by omega) (hd.perm hmove)
    refine ⟨newht₂, ?_, hwf₂, hG₂, hperm₂.trans hmove.symm⟩
    have hins : insert newht kv [] = _ := hins
    have hnext : htIteratorNext t it [] = _ := hnext
    have hrun : rehash insert t fuel it' newht₁ [] = _ := hrun
    simp [Run.Returns, rehash, htIteratorPastEnd_spec h hc, htIteratorGet_spec h hc,
      Run.bind_apply, hins, hnext, hrun]

/-- Nine times a number of buckets is never 0 in `HWSize_t`. -/
theorem u32_nine_pos {n : ℕ} (hpos : 0 < n) (hn : n < 2 ^ 32) : 0 < u32 (n * 9) := by
  by_contra hzero
  have hdvd : 2 ^ 32 ∣ n * 9 := Nat.dvd_of_mod_eq_zero (Nat.eq_zero_of_not_pos hzero)
  have hcoprime : Nat.Coprime (2 ^ 32) 9 := Nat.Coprime.pow_left 32 (by decide)
  exact Nat.not_le.mpr hn (Nat.le_of_dvd hpos (hcoprime.dvd_of_dvd_mul_right hdvd))

/-- `ResizeHashtable` leaves a small table alone. -/
theorem resizeHashtable_small (insert : Insertion V)
    (hsmall : t.numElements < u32 (3 * t.numBuckets)) :
    Yields (resizeHashtable insert t) t := by
  simp [Run.Returns, resizeHashtable, hsmall]

/-- `ResizeHashtable` of a full table keeps its pairs. -/
theorem resizeHashtable_full {insert : Insertion V} {G : HashTable V → Prop}
    (hfill : Fills insert G t.numElements) (h : t.WF)
    (hfull : u32 (3 * t.numBuckets) ≤ t.numElements)
    (hG : G (HashTable.fresh V (u32 (t.numBuckets * 9)))) :
    ∃ t', Yields (resizeHashtable insert t) t' ∧ t'.WF ∧ G t' ∧ t'.entries.Perm t.entries := by
  have hpos := u32_nine_pos h.pos h.small
  have halloc : allocateHashTable (u32 (t.numBuckets * 9)) [] = _ :=
    allocateHashTable_yields (V := V) hpos
  obtain ⟨it, hmake, hc⟩ := hashTableMakeIterator_yields h
  obtain ⟨t', hrun, hwf', hG', hperm⟩ := rehash_yields hfill h (t.numElements + 1) hc
    (by rw [h.count]; omega) (HashTable.wf_fresh hpos (u32_lt _)) hG
    (by rw [h.count, HashTable.fresh_numElements]; omega)
    (by rw [HashTable.fresh_entries, List.append_nil]; exact h.distinct)
  rw [HashTable.fresh_entries, List.append_nil] at hperm
  refine ⟨t', ?_, hwf', hG', hperm⟩
  have hmake : hashTableMakeIterator t [] = _ := hmake
  have hrun : rehash insert t _ it _ [] = _ := hrun
  have hnot : ¬ t.numElements < u32 (3 * t.numBuckets) := Nat.not_lt.mpr hfull
  simp [Run.Returns, resizeHashtable, hnot, Run.bind_apply, halloc, hmake, hrun,
    freeHashTable_spec h]

/-- `ResizeHashtable` keeps the pairs. -/
theorem resizeHashtable_yields {insert : Insertion V}
    (hfill : Fills insert (fun _ => True) t.numElements) (h : t.WF) :
    ∃ t', Yields (resizeHashtable insert t) t' ∧ t'.WF ∧ t'.entries.Perm t.entries := by
  by_cases hsmall : t.numElements < u32 (3 * t.numBuckets)
  · exact ⟨t, resizeHashtable_small _ hsmall, h, .refl _⟩
  · obtain ⟨t', hresize, h', -, hp⟩ := resizeHashtable_full hfill h (Nat.not_lt.mp hsmall) trivial
    exact ⟨t', hresize, h', hp⟩

/-! ## Insertion -/

/-- What an insertion of `kv` into `t` may do: put a fresh pair in and report 1, or
exchange the pair with that key and report 2. -/
def Inserts (t : HashTable V) (kv : HTKeyValue V) (code : ℕ) (t' : HashTable V)
    (old : Option (HTKeyValue V)) : Prop :=
  (code = 1 ∧ old = none ∧ t'.entries.Perm (kv :: t.entries) ∧ ∀ e ∈ t.entries, e.key ≠ kv.key) ∨
  ∃ prev rest, code = 2 ∧ old = some prev ∧ prev.key = kv.key ∧
    t.entries.Perm (prev :: rest) ∧ t'.entries.Perm (kv :: rest)

/-- The entries matter, not the buckets they are in. -/
theorem Inserts.of_perm {t₁ t' : HashTable V} {kv : HTKeyValue V} {code : ℕ}
    {old : Option (HTKeyValue V)} (hins : Inserts t₁ kv code t' old)
    (hp : t₁.entries.Perm t.entries) : Inserts t kv code t' old := by
  rcases hins with ⟨hcode, hold, hperm, hne⟩ | ⟨prev, rest, hcode, hold, hkey, hperm, hperm'⟩
  · exact .inl ⟨hcode, hold, hperm.trans (hp.cons kv), fun e he => hne e (hp.mem_iff.mpr he)⟩
  · exact .inr ⟨prev, rest, hcode, hold, hkey, hp.symm.trans hperm, hperm'⟩

/-- A fresh key can only be put in. -/
theorem Inserts.of_fresh {t' : HashTable V} {kv : HTKeyValue V} {code : ℕ}
    {old : Option (HTKeyValue V)} (hins : Inserts t kv code t' old)
    (hne : ∀ e ∈ t.entries, e.key ≠ kv.key) :
    code = 1 ∧ old = none ∧ t'.entries.Perm (kv :: t.entries) := by
  rcases hins with ⟨hcode, hold, hperm, -⟩ | ⟨prev, rest, -, -, hkey, hperm, -⟩
  · exact ⟨hcode, hold, hperm⟩
  · exact absurd hkey (hne prev (hperm.mem_iff.mpr List.mem_cons_self))

theorem insertIntoChain_inserts (h : t.WF) (hroom : t.numElements + 1 < 2 ^ 32)
    (kv : HTKeyValue V) :
    ∃ code t' old, Yields (insertIntoChain t kv) (code, t', old) ∧ t'.WF ∧
      t'.numBuckets = t.numBuckets ∧ Inserts t kv code t' old := by
  rcases insertIntoChain_yields h hroom kv with
    ⟨t', hrun, hwf, hnb, hperm, hne⟩ | ⟨t', old, rest, hrun, hwf, hnb, hkey, hperm, hperm'⟩
  · exact ⟨1, t', none, hrun, hwf, hnb, .inl ⟨rfl, rfl, hperm, hne⟩⟩
  · exact ⟨2, t', some old, hrun, hwf, hnb, .inr ⟨old, rest, rfl, rfl, hkey, hperm, hperm'⟩⟩

/-- `InsertHashTable` on a table that `ResizeHashtable` has dealt with. -/
theorem insertNested_after {depth : ℕ} {t₁ : HashTable V}
    (hresize : Yields (resizeHashtable (insertNested depth) t) t₁) (h₁ : t₁.WF)
    (hp : t₁.entries.Perm t.entries) (hroom : t₁.numElements + 1 < 2 ^ 32) (kv : HTKeyValue V) :
    ∃ code t' old, Yields (insertNested (depth + 1) t kv) (code, t', old) ∧ t'.WF ∧
      t'.numBuckets = t₁.numBuckets ∧ Inserts t kv code t' old := by
  obtain ⟨code, t', old, hrun, hwf, hnb, hins⟩ := insertIntoChain_inserts h₁ hroom kv
  exact ⟨code, t', old, hresize.bind hrun, hwf, hnb, hins.of_perm hp⟩

/-- Insertion returns on every well-formed table with room for one more element, at any
nesting bound beyond the number of elements. -/
theorem insertNested_yields : ∀ (depth : ℕ) {t : HashTable V}, t.WF →
    t.numElements + 1 < 2 ^ 32 → t.numElements + 2 ≤ depth → ∀ kv : HTKeyValue V,
    ∃ code t' old, Yields (insertNested depth t kv) (code, t', old) ∧ t'.WF ∧
      Inserts t kv code t' old
  | 0, _, _, _, hdepth, _ => absurd hdepth (Nat.not_le_of_lt (Nat.succ_pos _))
  | depth + 1, t, h, hroom, hdepth, kv => by
    have hfill : Fills (insertNested (V := V) depth) (fun _ => True) t.numElements := by
      intro newht kv hwf _ hlt hne
      obtain ⟨code, newht', old, hrun, hwf', hins⟩ :=
        insertNested_yields depth hwf (by omega) (by omega) kv
      obtain ⟨rfl, rfl, hperm⟩ := hins.of_fresh hne
      exact ⟨newht', hrun, hwf', trivial, hperm⟩
    obtain ⟨t₁, hresize, h₁, hp⟩ := resizeHashtable_yields hfill h
    have hroom₁ : t₁.numElements + 1 < 2 ^ 32 := by rwa [h₁.count, hp.length_eq, ← h.count]
    obtain ⟨code, t', old, hrun, hwf, -, hins⟩ := insertNested_after hresize h₁ hp hroom₁ kv
    exact ⟨code, t', old, hrun, hwf, hins⟩

/-- Insertion fills a table, at any nesting bound beyond the number of elements. -/
theorem insertNested_fills (depth : ℕ) {n : ℕ} (hn : n < 2 ^ 32) (hdepth : n + 1 ≤ depth) :
    Fills (insertNested (V := V) depth) (fun _ => True) n := by
  intro newht kv hwf _ hlt hne
  obtain ⟨code, newht', old, hrun, hwf', hins⟩ :=
    insertNested_yields depth hwf (by omega) (by omega) kv
  obtain ⟨rfl, rfl, hperm⟩ := hins.of_fresh hne
  exact ⟨newht', hrun, hwf', trivial, hperm⟩

/-- `InsertHashTable` on a well-formed table with room for one more element. -/
theorem insertHashTable_yields (h : t.WF) (hroom : t.numElements + 1 < 2 ^ 32)
    (kv : HTKeyValue V) :
    ∃ code t' old, Yields (insertHashTable t kv) (code, t', old) ∧ t'.WF ∧
      Inserts t kv code t' old :=
  insertNested_yields _ h hroom (Nat.le_refl _) kv

/-- `InsertHashTable` of a fresh key. -/
theorem insertHashTable_fresh (h : t.WF) (hroom : t.numElements + 1 < 2 ^ 32)
    {kv : HTKeyValue V} (hne : ∀ e ∈ t.entries, e.key ≠ kv.key) :
    ∃ t', Yields (insertHashTable t kv) (1, t', none) ∧ t'.WF ∧
      t'.entries.Perm (kv :: t.entries) := by
  obtain ⟨code, t', old, hrun, hwf, hins⟩ := insertHashTable_yields h hroom kv
  obtain ⟨rfl, rfl, hperm⟩ := hins.of_fresh hne
  exact ⟨t', hrun, hwf, hperm⟩

/-! ## Insertion where the number of buckets does not wrap -/

/-- The number of buckets an insertion works with. -/
def grownBuckets (numBuckets numElements : ℕ) : ℕ :=
  if numElements < 3 * numBuckets then numBuckets else 9 * numBuckets

/-- A table that stays below its own threshold is filled without growing. -/
theorem insertNested_fills_small (depth : ℕ) {numBuckets n : ℕ}
    (hn : n ≤ u32 (3 * numBuckets)) :
    Fills (insertNested (V := V) (depth + 1)) (fun newht => newht.numBuckets = numBuckets) n := by
  rintro newht kv hwf rfl hlt hne
  have hthree : u32 (3 * newht.numBuckets) < 2 ^ 32 := u32_lt _
  obtain ⟨code, newht', old, hrun, hwf', hnb, hins⟩ := insertNested_after
    (resizeHashtable_small (insertNested depth) (by omega)) hwf (.refl _) (by omega) kv
  obtain ⟨rfl, rfl, hperm⟩ := hins.of_fresh hne
  exact ⟨newht', hrun, hwf', hnb, hperm⟩

/-- Two levels of nesting are enough as long as three times the number of buckets fits
`HWSize_t` and the table has at most three elements a bucket. -/
theorem insertNested_grown (h : t.WF) (hload : t.numElements ≤ 3 * t.numBuckets)
    (hcap : 9 * grownBuckets t.numBuckets t.numElements < 2 ^ 32) (depth : ℕ)
    (kv : HTKeyValue V) :
    ∃ code t' old, Yields (insertNested (depth + 2) t kv) (code, t', old) ∧ t'.WF ∧
      t'.numBuckets = grownBuckets t.numBuckets t.numElements ∧
      t'.numElements ≤ 3 * t'.numBuckets ∧ Inserts t kv code t' old := by
  have hpos := h.pos
  unfold grownBuckets at hcap ⊢
  obtain ⟨t₁, hresize, h₁, hp, hnb⟩ : ∃ t₁,
      Yields (resizeHashtable (insertNested (depth + 1)) t) t₁ ∧ t₁.WF ∧
      t₁.entries.Perm t.entries ∧ t₁.numBuckets =
        if t.numElements < 3 * t.numBuckets then t.numBuckets else 9 * t.numBuckets := by
    by_cases hsmall : t.numElements < 3 * t.numBuckets
    · rw [if_pos hsmall] at hcap ⊢
      refine ⟨t, resizeHashtable_small _ ?_, h, .refl _, rfl⟩
      rwa [u32_of_lt (by omega)]
    · rw [if_neg hsmall] at hcap ⊢
      have hnine : u32 (t.numBuckets * 9) = t.numBuckets * 9 := u32_of_lt (by omega)
      have hthree : u32 (3 * (9 * t.numBuckets)) = 3 * (9 * t.numBuckets) := u32_of_lt (by omega)
      have hfill := insertNested_fills_small (V := V) depth
        (show t.numElements ≤ u32 (3 * (9 * t.numBuckets)) by omega)
      obtain ⟨t₁, hresize, h₁, hnb, hp⟩ := resizeHashtable_full hfill h
        (by rw [u32_of_lt (by omega)]; omega) (by rw [HashTable.fresh_numBuckets]; omega)
      exact ⟨t₁, hresize, h₁, hp, hnb⟩
  have hcount : t₁.numElements = t.numElements := by rw [h₁.count, hp.length_eq, ← h.count]
  have hroom : t₁.numElements + 1 < 2 ^ 32 := by
    split at hcap <;> omega
  obtain ⟨code, t', old, hrun, hwf, hnb', hins⟩ := insertNested_after hresize h₁ hp hroom kv
  refine ⟨code, t', old, hrun, hwf, hnb'.trans hnb, ?_, hins⟩
  have hgrow : t'.numElements ≤ t.numElements + 1 := by
    rw [hwf.count, h.count]
    rcases hins with ⟨-, -, hperm, -⟩ | ⟨prev, rest, -, -, -, hperm, hperm'⟩
    · rw [hperm.length_eq, List.length_cons]
    · rw [hperm.length_eq, hperm'.length_eq, List.length_cons, List.length_cons]
      omega
  rw [hnb', hnb]
  split <;> omega

/-! ## A table with given pairs -/

/-- Inserting pairs one after the other. -/
def insertAll (table : HashTable V) : List (HTKeyValue V) → Run Schedule (HashTable V)
  | [] => return table
  | kv :: kvs => do
    let (_, table, _) ← insertHashTable table kv
    insertAll table kvs

/-- Pairs with fresh keys all go in. -/
theorem insertAll_yields (kvs : List (HTKeyValue V)) : ∀ {t : HashTable V}, t.WF →
    t.numElements + kvs.length < 2 ^ 32 → DistinctKeys (kvs ++ t.entries) →
    ∃ t', Yields (insertAll t kvs) t' ∧ t'.WF ∧ t'.entries.Perm (kvs ++ t.entries) := by
  induction kvs with
  | nil => exact fun {t} h _ _ => ⟨t, rfl, h, .refl _⟩
  | cons kv kvs ih =>
    intro t h hroom hd
    rw [List.length_cons] at hroom
    obtain ⟨hne, -⟩ := distinctKeys_cons.mp hd
    obtain ⟨t₁, hins, h₁, hperm₁⟩ := insertHashTable_fresh h (by omega)
      fun e he => hne e (List.mem_append.mpr (.inr he))
    have hcount : t₁.numElements = t.numElements + 1 := by
      rw [h₁.count, hperm₁.length_eq, h.count, List.length_cons]
    have hmove : (kvs ++ t₁.entries).Perm (kv :: kvs ++ t.entries) :=
      (hperm₁.append_left kvs).trans List.perm_middle
    obtain ⟨t', hrun, h', hperm⟩ := ih h₁ (by omega) (hd.perm hmove.symm)
    exact ⟨t', (Run.bind_ok hins).trans hrun, h', hperm.trans hmove⟩

/-- A new table into which these pairs have been inserted. -/
def HashTable.ofPairs (numBuckets : ℕ) (kvs : List (HTKeyValue V)) : HashTable V :=
  match insertAll (HashTable.fresh V numBuckets) kvs [] with
  | .ok (t, _) => t
  | .error _ => HashTable.fresh V numBuckets

theorem HashTable.ofPairs_spec (numBuckets : ℕ) (kvs : List (HTKeyValue V))
    (hpos : 0 < numBuckets) (hsmall : numBuckets < 2 ^ 32) (hlen : kvs.length < 2 ^ 32)
    (hd : DistinctKeys kvs) :
    (HashTable.ofPairs numBuckets kvs).WF ∧
      (HashTable.ofPairs numBuckets kvs).entries.Perm kvs := by
  obtain ⟨t, hrun, h, hperm⟩ := insertAll_yields kvs (wf_fresh hpos hsmall)
    (by rw [fresh_numElements, Nat.zero_add]; exact hlen)
    (by rw [fresh_entries, List.append_nil]; exact hd)
  have hrun : insertAll (fresh V numBuckets) kvs [] = .ok (t, []) := hrun
  rw [fresh_entries, List.append_nil] at hperm
  rw [ofPairs, hrun]
  exact ⟨h, hperm⟩

end Rehash

end MultithreadedWebServer
