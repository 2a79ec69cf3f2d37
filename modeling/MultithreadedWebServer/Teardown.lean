import MultithreadedWebServer.TableRuns

/-!
# What becomes of the values in a hash table

`FreeLinkedList` and `FreeHashTable` call a function of the client on what is stored. Here they
are with that function; it is called on the payloads or values in turn, once each, and nothing
else of the table is touched after it was freed (`freeHashTableWith_spec`).

`Ledger` keeps the books over a whole run: every pair that was inserted is in exactly one place,
in the table or handed back to the client.
-/

namespace MultithreadedWebServer

/-! ## Freeing -/

section Free

variable {σ : Type} {α V : Type}

/-- The sweep of `FreeLinkedList`: the payload of the head, then the head. -/
def freeNodesWith (payloadFree : α → Run σ PUnit) : ℕ → Arena (Node α) → Ptr → Run σ PUnit
  | _, _, none => pure ⟨⟩
  | 0, _, some _ => Run.stop .diverges
  | fuel + 1, m, some a => do
    let node ← deref m (some a)
    payloadFree node.payload
    let m ← release m (some a)
    freeNodesWith payloadFree fuel m node.next

/-- `FreeLinkedList`. -/
def freeLinkedListWith (payloadFree : α → Run σ PUnit) (list : LinkedList α) : Run σ PUnit :=
  freeNodesWith payloadFree list.nodes.fresh list.nodes list.head

/-- The inner loop of `FreeHashTable`: pop an element, free its value. -/
def drainChainWith (valueFree : V → Run σ PUnit) :
    ℕ → LinkedList (HTKeyValue V) → Run σ (LinkedList (HTKeyValue V))
  | 0, _ => Run.stop .diverges
  | fuel + 1, chain => do
    if 0 < numElementsInLinkedList chain then
      let (nextKV, chain) ← popLinkedList chain
      match nextKV with
      | none => Run.stop .verify333
      | some nextKV =>
        valueFree nextKV.value
        drainChainWith valueFree fuel chain
    else
      return chain

/-- The outer loop of `FreeHashTable`; the chains are empty when they are freed. -/
def freeChainsWith (valueFree : V → Run σ PUnit) :
    List (LinkedList (HTKeyValue V)) → Run σ PUnit
  | [] => pure ⟨⟩
  | chain :: chains => do
    let chain ← drainChainWith valueFree (chain.numElements + 1) chain
    freeLinkedList chain
    freeChainsWith valueFree chains

/-- `FreeHashTable`. -/
def freeHashTableWith (valueFree : V → Run σ PUnit) (table : HashTable V) : Run σ PUnit :=
  freeChainsWith valueFree table.buckets

/-- A client that notes what it frees. -/
def noteFreed (v : V) : Run (List V) PUnit := fun freed => .ok (⟨⟩, freed ++ [v])

/-- The sweep frees the payloads in turn. -/
theorem freeNodesWith_spec (payloadFree : α → Run σ PUnit) :
    ∀ {cs : List (Addr × α)} {m : Arena (Node α)} {p : Ptr} (fuel : ℕ),
      Links m p cs none → (cs.map Prod.fst).Nodup → cs.length ≤ fuel →
        freeNodesWith payloadFree fuel m (firstAddr cs none) = (cs.map Prod.snd).forM payloadFree
  | [], _, _, _, _, _, _ => by
    rw [firstAddr_nil, freeNodesWith]
    rfl
  | (a, x) :: cs, m, p, fuel + 1, h, hnd, hlen => by
    obtain ⟨hr, hcs⟩ := h
    obtain ⟨ha, hnd⟩ := List.nodup_cons.mp hnd
    have hrest :=
      freeNodesWith_spec payloadFree fuel (hcs.free ha) hnd (Nat.le_of_succ_le_succ hlen)
    rw [firstAddr_cons, freeNodesWith, deref_some hr, Run.pure_bind, release_some hr,
      Run.pure_bind, hrest]
    rfl

/-- `FreeLinkedList` frees the payloads from the head on. -/
theorem freeLinkedListWith_spec (payloadFree : α → Run σ PUnit) {list : LinkedList α}
    (h : list.WF) : freeLinkedListWith payloadFree list = list.toList.forM payloadFree := by
  have hrepr : Repr list list.cells := h
  rw [freeLinkedListWith, hrepr.head_eq]
  exact freeNodesWith_spec payloadFree _ hrepr.links hrepr.nodup
    (hrepr.links.length_le_fresh hrepr.nodup)

/-- A chain is emptied from its head on. -/
theorem drainChainWith_spec (valueFree : V → Run σ PUnit) :
    ∀ {cs : List (Addr × HTKeyValue V)} {chain : LinkedList (HTKeyValue V)} {fuel : ℕ},
      Repr chain cs → cs.length < fuel → ∃ chain', Repr chain' [] ∧
        drainChainWith valueFree fuel chain =
          (cs.map fun c => c.2.value).forM valueFree >>= fun _ => pure chain'
  | _, _, 0, _, hlen => absurd hlen (Nat.not_lt_zero _)
  | [], chain, fuel + 1, h, _ => by
    have hn : ¬ 0 < numElementsInLinkedList chain := by
      rw [numElementsInLinkedList, h.count]
      exact Nat.lt_irrefl 0
    refine ⟨chain, h, ?_⟩
    rw [drainChainWith, if_neg hn]
    rfl
  | (a, kv) :: cs, chain, fuel + 1, h, hlen => by
    have hn : 0 < numElementsInLinkedList chain := by
      rw [numElementsInLinkedList, h.count]
      exact Nat.succ_pos _
    obtain ⟨chain', h', hpop⟩ := popLinkedList_spec (σ := σ) h
    obtain ⟨chain'', h'', hrun⟩ := drainChainWith_spec valueFree h' (Nat.lt_of_succ_lt_succ hlen)
    refine ⟨chain'', h'', ?_⟩
    rw [drainChainWith, if_pos hn, hpop, Run.pure_bind]
    dsimp only
    rw [hrun, ← Run.bind_assoc]
    rfl

theorem freeChainsWith_spec (valueFree : V → Run σ PUnit) :
    ∀ {chains : List (LinkedList (HTKeyValue V))}, (∀ chain ∈ chains, chain.WF) →
      freeChainsWith valueFree chains =
        ((chains.flatMap LinkedList.toList).map HTKeyValue.value).forM valueFree
  | [], _ => rfl
  | chain :: chains, h => by
    have hrepr : Repr chain chain.cells := h chain List.mem_cons_self
    obtain ⟨chain', h', hrun⟩ := drainChainWith_spec valueFree hrepr
      (show chain.cells.length < chain.numElements + 1 by rw [hrepr.count]; omega)
    have ih := freeChainsWith_spec valueFree fun c hc => h c (List.mem_cons_of_mem _ hc)
    have hvalues : (chain.toList.map HTKeyValue.value) = chain.cells.map fun c => c.2.value :=
      List.map_map
    have := Run.lawful (σ : Type)
    rw [freeChainsWith, hrun, Run.bind_assoc]
    simp only [Run.pure_bind, freeLinkedList_spec h', ih]
    rw [List.flatMap_cons, List.map_append, hvalues]
    exact (List.forM_append ..).symm

/-- `FreeHashTable` calls the function of the client on the values, bucket by bucket, once each. -/
theorem freeHashTableWith_spec (valueFree : V → Run σ PUnit) {t : HashTable V} (h : t.WF) :
    freeHashTableWith valueFree t = (t.entries.map HTKeyValue.value).forM valueFree :=
  freeChainsWith_spec valueFree h.chains

end Free

/-! ## The books -/

section Ledger

variable {V : Type}

theorem survivors_nil (cs : List Choice) : survivors ([] : List (HTKeyValue V)) cs = [] := by
  cases cs <;> rfl

/-- The pairs that `HTIteratorDelete` returned on a walk. -/
def removedPairs : List (Visit V) → List Choice → List (HTKeyValue V)
  | v :: vs, .remove :: cs => v.1.toList ++ removedPairs vs cs
  | _ :: vs, .advance :: cs => removedPairs vs cs
  | _, _ => []

/-- A walk splits the pairs into those that it removes and those that survive it. -/
theorem removedPairs_perm : ∀ (es : List (HTKeyValue V)) (cs : List Choice),
    (removedPairs (visits es cs) cs ++ survivors es cs).Perm es
  | [], [] => .nil
  | _ :: _, [] => .refl _
  | [], .advance :: cs => by
    have ih := removedPairs_perm ([] : List (HTKeyValue V)) cs
    rw [survivors_nil] at ih
    rwa [visits, removedPairs, survivors]
  | [], .remove :: cs => by
    have ih := removedPairs_perm ([] : List (HTKeyValue V)) cs
    rw [survivors_nil] at ih
    rwa [visits, removedPairs, survivors, Option.toList_none, List.nil_append]
  | kv :: rest, .advance :: cs => by
    rw [visits, removedPairs, survivors]
    exact List.perm_middle.trans ((removedPairs_perm rest cs).cons kv)
  | kv :: rest, .remove :: cs => by
    rw [visits, removedPairs, survivors]
    exact (removedPairs_perm rest cs).cons kv

variable [DecidableEq V]

/-- A table after some calls: the pairs that were inserted and the pairs that were handed back,
in reverse order of the calls. -/
inductive Ledger : HashTable V → List (HTKeyValue V) → List (HTKeyValue V) → Prop
  /-- `AllocateHashTable` -/
  | allocate {n : ℕ} {t : HashTable V} (hn : n < 2 ^ 32)
      (hrun : Yields (allocateHashTable n) (some t)) : Ledger t [] []
  /-- `InsertHashTable` -/
  | insert {t t' : HashTable V} {kv : HTKeyValue V} {code : ℕ} {old : Option (HTKeyValue V)}
      {taken returned : List (HTKeyValue V)} (h : Ledger t taken returned)
      (hroom : t.numElements + 1 < 2 ^ 32)
      (hrun : Yields (insertHashTable t kv) (code, t', old)) :
      Ledger t' (kv :: taken) (old.toList ++ returned)
  /-- `RemoveFromHashTable` -/
  | remove {t t' : HashTable V} {key : UInt64} {code : ℤ} {kv : Option (HTKeyValue V)}
      {taken returned : List (HTKeyValue V)} (h : Ledger t taken returned)
      (hrun : Yields (removeFromHashTable t key) (code, t', kv)) :
      Ledger t' taken (kv.toList ++ returned)
  /-- an iterator from `HashTableMakeIterator`, advanced and deleted with -/
  | walk {t t' : HashTable V} {it it' : HTIter} {cs : List Choice} {vs : List (Visit V)}
      {taken returned : List (HTKeyValue V)} (h : Ledger t taken returned)
      (hmake : Yields (hashTableMakeIterator t) (some it))
      (hrun : Yields (walkTable t it cs) (vs, t', it')) :
      Ledger t' taken (removedPairs vs cs ++ returned)

/-- The books balance, and the table is well formed. -/
theorem Ledger.balanced {t : HashTable V} {taken returned : List (HTKeyValue V)}
    (h : Ledger t taken returned) : t.WF ∧ (returned ++ t.entries).Perm taken := by
  induction h with
  | @allocate n t hn hrun =>
    have hwf := (HashTable.Reachable.allocate hn hrun).wf
    rcases Nat.eq_zero_or_pos n with rfl | hpos
    · have hnone : Yields (allocateHashTable 0) (none : Option (HashTable V)) := rfl
      cases (hnone.unique hrun).1
    · have heq := ((allocateHashTable_yields hpos).unique hrun).1
      rw [← Option.some.inj heq] at hwf ⊢
      rw [HashTable.fresh_entries]
      exact ⟨hwf, .refl _⟩
  | @insert t t' kv code old taken returned _ hroom hrun ih =>
    obtain ⟨code', t'', old', hrun', hwf, hins⟩ := insertHashTable_yields ih.1 hroom kv
    obtain ⟨-, rfl, rfl⟩ : code' = code ∧ t'' = t' ∧ old' = old := by
      simpa using (hrun'.unique hrun).1
    refine ⟨hwf, ?_⟩
    rcases hins with ⟨-, rfl, hperm, -⟩ | ⟨prev, rest, -, rfl, -, hperm, hperm'⟩
    · exact (hperm.append_left returned).trans (List.perm_middle.trans (ih.2.cons kv))
    · have hold : (returned ++ prev :: rest).Perm taken :=
        (hperm.symm.append_left returned).trans ih.2
      have hmoved : (prev :: (returned ++ kv :: rest)).Perm (kv :: (returned ++ prev :: rest)) :=
        (List.perm_middle.cons prev).trans ((List.Perm.swap kv prev _).trans
          (List.perm_middle.symm.cons kv))
      exact ((hperm'.append_left returned).cons prev).trans (hmoved.trans (hold.cons kv))
  | @remove t t' key code kv taken returned _ hrun ih =>
    rcases removeFromHashTable_yields ih.1 key with
      ⟨t'', kv', hrun', hwf, -, -, hperm⟩ | ⟨-, hrun'⟩
    · obtain ⟨-, rfl, rfl⟩ : 1 = code ∧ t'' = t' ∧ some kv' = kv := by
        simpa using (hrun'.unique hrun).1
      exact ⟨hwf, (List.perm_middle.symm.trans (hperm.symm.append_left returned)).trans ih.2⟩
    · obtain ⟨-, rfl, rfl⟩ : 0 = code ∧ t = t' ∧ none = kv := by
        simpa using (hrun'.unique hrun).1
      exact ih
  | @walk t t' it it' cs vs taken returned _ hmake hrun ih =>
    obtain ⟨it₀, hmake', hc⟩ := hashTableMakeIterator_yields ih.1
    obtain rfl := Option.some.inj (hmake'.unique hmake).1
    have hall : t.entries.Perm ([] ++ t.entries) := .refl _
    obtain ⟨t'', it'', hrun', hwf, -, hperm⟩ := walkTable_yields cs ih.1 hc hall
    obtain ⟨rfl, rfl, -⟩ : visits t.entries cs = vs ∧ t'' = t' ∧ it'' = it' := by
      simpa using (hrun'.unique hrun).1
    rw [List.nil_append] at hperm
    have hsplit : (removedPairs (visits t.entries cs) cs ++ t''.entries).Perm t.entries :=
      (hperm.append_left _).trans (removedPairs_perm t.entries cs)
    refine ⟨hwf, ?_⟩
    have hmoved : (removedPairs (visits t.entries cs) cs ++ returned ++ t''.entries).Perm
        (returned ++ (removedPairs (visits t.entries cs) cs ++ t''.entries)) := by
      rw [← List.append_assoc]
      exact List.perm_append_comm.append_right _
    exact hmoved.trans ((hsplit.append_left returned).trans ih.2)

/-- Every pair that was ever inserted ends up in exactly one place: `InsertHashTable`,
`RemoveFromHashTable` or `HTIteratorDelete` has handed it back, or `FreeHashTable` frees its
value, once, however the calls were mixed and however often the table grew. -/
theorem every_pair_accounted_for {t : HashTable V} {taken returned : List (HTKeyValue V)}
    (h : Ledger t taken returned) : ∃ left, (returned ++ left).Perm taken ∧
      ∀ {σ : Type} (valueFree : V → Run σ PUnit),
        freeHashTableWith valueFree t = (left.map HTKeyValue.value).forM valueFree :=
  ⟨t.entries, h.balanced.2, fun valueFree => freeHashTableWith_spec valueFree h.balanced.1⟩

/-- After `5 ↦ 1` and `5 ↦ 2` were inserted, the first value was handed back and the second one is
freed. -/
theorem every_pair_accounted_for_replaced : ∃ t : HashTable ℕ,
    Ledger t [⟨5, 2⟩, ⟨5, 1⟩] [⟨5, 1⟩] ∧
      freeHashTableWith noteFreed t [] = .ok (⟨⟩, [2]) := by
  have hwf := HashTable.wf_fresh (V := ℕ) (show 0 < 2 by decide) (by decide)
  have hfresh : Ledger (HashTable.fresh ℕ 2) [] [] :=
    .allocate (by decide) (allocateHashTable_yields (by decide))
  have hroom : (HashTable.fresh ℕ 2).numElements + 1 < 2 ^ 32 := by decide
  obtain ⟨t₁, hins₁, hwf₁, hperm₁⟩ := insertHashTable_fresh hwf hroom
    (show ∀ e ∈ (HashTable.fresh ℕ 2).entries, e.key ≠ (⟨5, 1⟩ : HTKeyValue ℕ).key by simp)
  rw [HashTable.fresh_entries, List.perm_singleton] at hperm₁
  have hroom₁ : t₁.numElements + 1 < 2 ^ 32 := by
    rw [hwf₁.count, hperm₁]
    decide
  obtain ⟨code, t₂, old, hins₂, -, hins⟩ := insertHashTable_yields hwf₁ hroom₁ ⟨5, 2⟩
  rcases hins with ⟨-, -, -, hne⟩ | ⟨prev, rest, -, rfl, -, hperm, -⟩
  · exact absurd rfl (hne ⟨5, 1⟩ (by rw [hperm₁]; exact List.mem_singleton_self _))
  · rw [hperm₁, List.singleton_perm] at hperm
    obtain ⟨rfl, rfl⟩ := List.cons.inj hperm
    have hbooks := (hfresh.insert hroom hins₁).insert hroom₁ hins₂
    refine ⟨t₂, hbooks, ?_⟩
    obtain ⟨left, hleft, hfree⟩ := every_pair_accounted_for hbooks
    have hswap := List.Perm.swap (⟨5, 1⟩ : HTKeyValue ℕ) ⟨5, 2⟩ []
    have hone : left = [⟨5, 2⟩] := List.perm_singleton.mp (hleft.trans hswap).cons_inv
    rw [hfree, hone]
    rfl

end Ledger

end MultithreadedWebServer
