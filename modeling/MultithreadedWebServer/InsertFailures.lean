import MultithreadedWebServer.RehashFailures

/-!
# Insertion when memory runs out

`InsertHashTable` calls `malloc` for the pair, for an iterator over a chain that is not
empty, and for the node. A key that is in the table is replaced: the old node is freed, and
the push of the new one is not checked. So if just that `malloc` fails the pair is gone, the
code says that it was replaced, and the counter is one too high.

That is the only way to leave the invariant: whatever fails in a run without it, every table
that a client can have is well formed.
-/

namespace MultithreadedWebServer

section Failures

variable {V : Type} {t : HashTable V} {kv : HTKeyValue V}

/-! ## Insertion without growing -/

/-- The key is in the table, and of three `malloc` calls the third is the first to fail. -/
def dropsPair (t : HashTable V) (kv : HTKeyValue V) (s : Schedule) : Bool :=
  (t.entries.any fun e => e.key = kv.key) && (served 2 s && !served 3 s)

theorem mem_toFinmap (h : t.WF) {key : UInt64} :
    key ∈ t.toFinmap ↔ ∃ e ∈ t.entries, e.key = key := by
  rw [← Finmap.lookup_isSome, Option.isSome_iff_exists]
  constructor
  · rintro ⟨v, hv⟩
    exact ⟨⟨key, v⟩, (lookup_asFinmap_iff h.distinct).mp hv, rfl⟩
  · rintro ⟨e, he, rfl⟩
    exact ⟨e.value, lookup_asFinmap_of_mem h.distinct he⟩

theorem resizeHashtable_eq_pure (insert : Insertion V)
    (hsmall : t.numElements < u32 (3 * t.numBuckets)) : resizeHashtable insert t = pure t := by
  simp [resizeHashtable, hsmall]

/-- The result of an insertion: nothing has changed, or the pair was added, or it has replaced
another one. -/
def KeptOrBound (t : HashTable V) (kv : HTKeyValue V) (code : ℕ) (t' : HashTable V) : Prop :=
  code = 0 ∧ t'.toFinmap = t.toFinmap ∧ t'.numElements = t.numElements ∨
  code = 1 ∧ kv.key ∉ t.toFinmap ∧ t'.toFinmap = t.toFinmap.insert kv.key kv.value ∨
  code = 2 ∧ kv.key ∈ t.toFinmap ∧ t'.toFinmap = t.toFinmap.insert kv.key kv.value

/-- An insertion under the verdicts `s` is all or nothing, and counts the pairs. -/
def Atomic (t : HashTable V) (kv : HTKeyValue V) (s : Schedule) : Prop :=
  ∃ code t' old s', (insertHashTable t kv).Returns s (code, t', old) s' ∧
    KeptOrBound t kv code t' ∧ t'.numElements = t'.entries.length

/-- A pair that was replaced. -/
theorem asFinmap_replace {old kv : HTKeyValue V} {l rest l' : List (HTKeyValue V)}
    (hl : DistinctKeys l) (hl' : DistinctKeys l') (hkey : old.key = kv.key)
    (hperm : l.Perm (old :: rest)) (hperm' : l'.Perm (kv :: rest)) :
    asFinmap l' = (asFinmap l).insert kv.key kv.value := by
  rw [asFinmap_perm hl hperm, asFinmap_perm hl' hperm', asFinmap_cons, asFinmap_cons, hkey,
    Finmap.insert_insert]

theorem any_key_eq_false (hmiss : ∀ e ∈ t.entries, e.key ≠ kv.key) :
    (t.entries.any fun e => e.key = kv.key) = false := by
  rw [List.any_eq_false]
  intro e he
  simpa using hmiss e he

theorem any_key_eq_true (hin : ¬ ∀ e ∈ t.entries, e.key ≠ kv.key) :
    (t.entries.any fun e => e.key = kv.key) = true := by
  by_contra hnone
  refine hin fun e he hkey => hnone ?_
  rw [List.any_eq_true]
  exact ⟨e, he, decide_eq_true hkey⟩

/-- What an insertion into a chain does, for every sequence of verdicts. -/
theorem insertIntoChain_attempt (h : t.WF) (hroom : t.numElements + 1 < 2 ^ 32)
    (kv : HTKeyValue V) (s : Schedule) :
    ∃ code t' old s', insertIntoChain t kv s = .ok ((code, t', old), s') ∧
      (dropsPair t kv s = false ∧ t'.WF ∧ KeptOrBound t kv code t' ∨
        dropsPair t kv s = true ∧ t'.numElements = t'.entries.length + 1) := by
  by_cases hmiss : ∀ e ∈ t.entries, e.key ≠ kv.key
  · have hdrops : dropsPair t kv s = false := by
      rw [dropsPair, any_key_eq_false hmiss, Bool.false_and]
    have habsent : kv.key ∉ t.toFinmap := by
      rw [mem_toFinmap h]
      rintro ⟨e, he, hkey⟩
      exact hmiss e he hkey
    obtain ⟨t', -, hwf, -, hent, hinsert⟩ := insertIntoChain_fresh h hroom hmiss
    have hperm : t'.entries.Perm (kv :: t.entries) := hent ▸ placed_perm _ _ _
    obtain ⟨result, s', hrun, ⟨-, rfl, -⟩ | ⟨-, rfl, -⟩⟩ := hinsert s
    · have hmap : t'.toFinmap = t.toFinmap.insert kv.key kv.value := by
        rw [HashTable.toFinmap, asFinmap_perm hwf.distinct hperm, asFinmap_cons]
        rfl
      exact ⟨1, t', none, s', hrun, .inl ⟨hdrops, hwf, .inr (.inl ⟨rfl, habsent, hmap⟩)⟩⟩
    · exact ⟨0, t, none, s', hrun, .inl ⟨hdrops, h, .inl ⟨rfl, rfl, rfl⟩⟩⟩
  · have hany := any_key_eq_true hmiss
    obtain ⟨t', gone, old, rest, hkey, hperm, hwf, -, hperm', hnum, hgone, hrun⟩ :=
      insertIntoChain_present h hmiss
    obtain ⟨n, hrun⟩ := hrun s
    have hpresent : kv.key ∈ t.toFinmap :=
      (mem_toFinmap h).mpr ⟨old, hperm.symm.subset List.mem_cons_self, hkey⟩
    have hmap : t'.toFinmap = t.toFinmap.insert kv.key kv.value :=
      asFinmap_replace h.distinct hwf.distinct hkey hperm hperm'
    have hlen : gone.numElements = gone.entries.length + 1 := by
      rw [hnum, h.count, hperm.length_eq, hgone.length_eq, List.length_cons]
    by_cases htwo : served 2 s = true
    · rw [if_pos htwo] at hrun
      by_cases hthree : served 3 s = true
      · rw [if_pos hthree] at hrun
        have hdrops : dropsPair t kv s = false := by
          simp [dropsPair, hthree]
        exact ⟨2, t', some old, _, hrun, .inl ⟨hdrops, hwf, .inr (.inr ⟨rfl, hpresent, hmap⟩)⟩⟩
      · rw [if_neg hthree] at hrun
        have hdrops : dropsPair t kv s = true := by
          simp [dropsPair, hany, htwo, hthree]
        exact ⟨2, gone, some old, _, hrun, .inr ⟨hdrops, hlen⟩⟩
    · rw [if_neg htwo] at hrun
      have hdrops : dropsPair t kv s = false := by
        simp [dropsPair, htwo]
      exact ⟨0, t, none, _, hrun, .inl ⟨hdrops, h, .inl ⟨rfl, rfl, rfl⟩⟩⟩

/-- Without growing, an insertion is all or nothing exactly if no pair is dropped. -/
theorem atomic_iff (h : t.WF) (hsmall : t.numElements < u32 (3 * t.numBuckets))
    (kv : HTKeyValue V) (s : Schedule) : Atomic t kv s ↔ dropsPair t kv s = false := by
  have hlt : u32 (3 * t.numBuckets) < 2 ^ 32 := u32_lt _
  have hinsert : insertHashTable t kv = insertIntoChain t kv := by
    change (resizeHashtable _ t >>= fun t => insertIntoChain t kv) = _
    rw [resizeHashtable_eq_pure _ hsmall]
    rfl
  obtain ⟨code, t', old, s', hrun, hresult⟩ := insertIntoChain_attempt h (by omega) kv s
  rw [← hinsert] at hrun
  rcases hresult with ⟨hdrops, hwf, hall⟩ | ⟨hdrops, hlen⟩
  · exact iff_of_true ⟨code, t', old, s', hrun, hall, hwf.count⟩ hdrops
  · refine iff_of_false ?_ (by rw [hdrops]; exact Bool.noConfusion)
    rintro ⟨code', t'', old', s'', hrun', -, hcount⟩
    obtain ⟨heq, -⟩ := Run.Returns.unique hrun hrun'
    obtain ⟨rfl, rfl, rfl⟩ : code = code' ∧ t' = t'' ∧ old = old' := by simpa using heq
    omega

/-! ## Whole runs -/

/-- The insertion drops a pair, once growing is out of the way. -/
def insertDrops (t : HashTable V) (kv : HTKeyValue V) (s : Schedule) : Bool :=
  match resizeHashtable (insertNested (t.numElements + 1)) t s with
  | .ok (t₁, s₁) => dropsPair t₁ kv s₁
  | .error _ => false

/-- An insertion that drops no pair keeps the invariant, whatever else fails. -/
theorem HashTable.WF.insert {t' : HashTable V} {code : ℕ} {old : Option (HTKeyValue V)}
    {s s' : Schedule} (h : t.WF) (hroom : t.numElements + 1 < 2 ^ 32)
    (hkeeps : insertDrops t kv s = false)
    (hrun : (insertHashTable t kv).Returns s (code, t', old) s') : t'.WF := by
  have hlt : t.numElements < 2 ^ 32 := Nat.lt_of_succ_lt hroom
  obtain ⟨t₁, s₁, hresize, h₁, hsub, -⟩ := resizeHashtable_attempt
    (insertNested_attempts (V := V) (t.numElements + 1) hlt (Nat.le_refl _)) h s
  have hle := hsub.length_le
  have hroom₁ : t₁.numElements + 1 < 2 ^ 32 := by
    rw [h.count] at hroom
    rw [h₁.count]
    omega
  rw [insertDrops, hresize] at hkeeps
  have hinsert : insertHashTable t kv s = insertIntoChain t₁ kv s₁ := Run.bind_ok hresize
  obtain ⟨code', t'', old', s'', hchain, ⟨-, hwf, -⟩ | ⟨hdrops, -⟩⟩ :=
    insertIntoChain_attempt h₁ hroom₁ kv s₁
  · obtain ⟨heq, -⟩ := Run.Returns.unique hrun (hinsert.trans hchain)
    obtain ⟨-, rfl, -⟩ : code = code' ∧ t' = t'' ∧ old = old' := by simpa using heq
    exact hwf
  · exact absurd (hkeeps.symm.trans hdrops) Bool.false_ne_true

/-- A removal keeps the invariant. -/
theorem HashTable.WF.remove {t' : HashTable V} {key : UInt64} {code : ℤ}
    {old : Option (HTKeyValue V)} {s s' : Schedule} (h : t.WF)
    (hrun : (removeFromHashTable t key).Returns s (code, t', old) s') : t'.WF := by
  by_cases hmiss : ∀ e ∈ t.entries, e.key ≠ key
  · obtain ⟨n, habsent⟩ := removeFromHashTable_absent h hmiss
    obtain ⟨heq, -⟩ := Run.Returns.unique hrun (habsent s)
    obtain ⟨-, rfl, -⟩ := Prod.mk.inj heq |>.imp_right Prod.mk.inj
    exact h
  · obtain ⟨kv, hkv, rfl⟩ : ∃ e ∈ t.entries, e.key = key := by simpa using hmiss
    obtain ⟨chain, hc, hwf⟩ := h.bucketOf kv.key
    obtain ⟨⟨a, kv⟩, hd, rfl⟩ := List.mem_map.mp ((h.mem_entries hc).mp hkv)
    obtain ⟨pre, post, hsplit⟩ := List.append_of_mem hd
    have hrepr : Repr chain (pre ++ (a, kv) :: post) := hsplit ▸ hwf
    obtain ⟨chain', -, hwf', -, hremove⟩ := removeFromHashTable_attempt h hc hrepr
    obtain ⟨heq, -⟩ := Run.Returns.unique hrun (hremove s)
    split at heq
    · obtain ⟨-, rfl, -⟩ := Prod.mk.inj heq |>.imp_right Prod.mk.inj
      exact hwf'
    · obtain ⟨-, rfl, -⟩ := Prod.mk.inj heq |>.imp_right Prod.mk.inj
      exact h

theorem eq_of_deleteResult {t' t'' : HashTable V} {res code : ℕ} {it it' : HTIter}
    {old : Option (HTKeyValue V)} {s s' : Schedule}
    (h : deleteResult t' kv res it s = .ok ((code, t'', it', old), s')) : t' = t'' ∧ it = it' := by
  rw [deleteResult] at h
  split at h
  · obtain ⟨heq, -⟩ := Prod.mk.inj (Except.ok.inj h)
    obtain ⟨-, htable, hiter, -⟩ := Prod.mk.inj heq |>.imp_right fun h =>
      Prod.mk.inj h |>.imp_right Prod.mk.inj
    exact ⟨htable, hiter⟩
  · cases h

variable [DecidableEq V]

/-- One position of a walk keeps the invariant, and the iterator stands on a pair of the table
or past the end. -/
theorem Cursor.visit {t' : HashTable V} {it it' : HTIter} {rest : List (HTKeyValue V)}
    {c : Choice} {v : Visit V} {s s' : Schedule} (h : t.WF) (hc : Cursor t it rest)
    (hrun : (visit t it c).Returns s (v, t', it') s') : t'.WF ∧ ∃ rest', Cursor t' it' rest' := by
  cases rest with
  | nil =>
    have hv : it.isValid = false := by
      cases hc
      assumption
    rw [visit_eq_pure hv] at hrun
    obtain ⟨heq, -⟩ := Run.pure_eq_ok.mp hrun
    obtain ⟨-, rfl, rfl⟩ := Prod.mk.inj heq |>.imp_right Prod.mk.inj
    exact ⟨h, [], hc⟩
  | cons kv rest =>
    cases c with
    | advance =>
      obtain ⟨it₁, invalid, hc', hinvalid, hnext⟩ := htIteratorNext_spec h hc
      rw [Run.Returns, MultithreadedWebServer.visit, htIteratorGet_spec h hc, Run.pure_bind] at hrun
      obtain ⟨⟨res, it₂⟩, s₁, hstep, hlast⟩ := Run.bind_eq_ok hrun
      obtain ⟨heq, -⟩ := Run.pure_eq_ok.mp hlast
      obtain ⟨-, rfl, rfl⟩ := Prod.mk.inj heq |>.imp_right Prod.mk.inj
      refine ⟨h, ?_⟩
      rw [hnext] at hstep
      split at hstep
      · obtain ⟨heq, -⟩ := Prod.mk.inj (Except.ok.inj hstep)
        split at heq
        · obtain ⟨-, rfl⟩ := Prod.mk.inj heq
          exact ⟨rest, hc'⟩
        · obtain ⟨-, rfl⟩ := Prod.mk.inj heq
          exact ⟨[], .past hinvalid⟩
      · obtain ⟨heq, -⟩ := Prod.mk.inj (Except.ok.inj hstep)
        obtain ⟨-, rfl⟩ := Prod.mk.inj heq
        exact ⟨rest, hc'⟩
    | remove =>
      obtain ⟨t₁, it₁, invalid, hwf, hc', hinvalid, -, -, hdelete⟩ := htIteratorDelete_attempt h hc
      rw [Run.Returns, MultithreadedWebServer.visit] at hrun
      obtain ⟨⟨code, t₂, it₂, old⟩, s₁, hstep, hlast⟩ := Run.bind_eq_ok hrun
      obtain ⟨heq, -⟩ := Run.pure_eq_ok.mp hlast
      obtain ⟨-, rfl, rfl⟩ := Prod.mk.inj heq |>.imp_right Prod.mk.inj
      rw [hdelete] at hstep
      split at hstep
      · split at hstep
        · obtain ⟨rfl, rfl⟩ := eq_of_deleteResult hstep
          exact ⟨hwf, rest, hc'⟩
        · obtain ⟨rfl, rfl⟩ := eq_of_deleteResult hstep
          exact ⟨hwf, [], .past hinvalid⟩
      · obtain ⟨rfl, rfl⟩ := eq_of_deleteResult hstep
        exact ⟨hwf, rest, hc'⟩

/-- A walk keeps the invariant. -/
theorem HashTable.WF.walk {t' : HashTable V} {it it' : HTIter} {rest : List (HTKeyValue V)}
    {cs : List Choice} {vs : List (Visit V)} {s s' : Schedule} (h : t.WF) (hc : Cursor t it rest)
    (hrun : (walkTable t it cs).Returns s (vs, t', it') s') : t'.WF := by
  induction cs generalizing t it rest vs s s' with
  | nil =>
    obtain ⟨heq, -⟩ := Run.pure_eq_ok.mp hrun
    obtain ⟨-, rfl, -⟩ := Prod.mk.inj heq |>.imp_right Prod.mk.inj
    exact h
  | cons c cs ih =>
    obtain ⟨⟨v, t₁, it₁⟩, s₁, hvisit, hrest⟩ := Run.bind_eq_ok hrun
    obtain ⟨⟨vs₁, t₂, it₂⟩, s₂, hwalk, hlast⟩ := Run.bind_eq_ok hrest
    obtain ⟨heq, -⟩ := Run.pure_eq_ok.mp hlast
    obtain ⟨-, rfl, rfl⟩ := Prod.mk.inj heq |>.imp_right Prod.mk.inj
    obtain ⟨hwf, rest', hc'⟩ := hc.visit h hvisit
    exact ih hwf hc' hwalk

/-- The tables a client can have, whatever `malloc` does, as long as no insertion drops a pair
and the element counter has room: allocated, inserted into, removed from, and walked over. -/
inductive HashTable.Attained : HashTable V → Prop
  /-- `AllocateHashTable` -/
  | allocate {n : ℕ} {t : HashTable V} {s s' : Schedule} (hn : n < 2 ^ 32)
      (hrun : (allocateHashTable n).Returns s (some t) s') : Attained t
  /-- `InsertHashTable` -/
  | insert {t t' : HashTable V} {kv : HTKeyValue V} {code : ℕ} {old : Option (HTKeyValue V)}
      {s s' : Schedule} (h : Attained t) (hroom : t.numElements + 1 < 2 ^ 32)
      (hkeeps : insertDrops t kv s = false)
      (hrun : (insertHashTable t kv).Returns s (code, t', old) s') : Attained t'
  /-- `RemoveFromHashTable` -/
  | remove {t t' : HashTable V} {key : UInt64} {code : ℤ} {old : Option (HTKeyValue V)}
      {s s' : Schedule} (h : Attained t)
      (hrun : (removeFromHashTable t key).Returns s (code, t', old) s') : Attained t'
  /-- an iterator from `HashTableMakeIterator`, advanced and deleted with -/
  | walk {t t' : HashTable V} {it it' : HTIter} {cs : List Choice} {vs : List (Visit V)}
      {s₀ s s' : Schedule} (h : Attained t)
      (hmake : (hashTableMakeIterator t).Returns s₀ (some it) s)
      (hrun : (walkTable t it cs).Returns s (vs, t', it') s') : Attained t'

/-- All these tables are well formed. -/
theorem HashTable.Attained.wf (h : t.Attained) : t.WF := by
  induction h with
  | @allocate n t s s' hn hrun =>
    rcases Nat.eq_zero_or_pos n with rfl | hpos
    · cases hrun
    · obtain ⟨made, s'', halloc, hmade⟩ := allocateHashTable_attempt (V := V) hpos s
      obtain ⟨heq, -⟩ := Run.Returns.unique hrun halloc
      rcases hmade with ⟨-, rfl, -⟩ | ⟨-, rfl, -⟩
      · obtain rfl := Option.some.inj heq
        exact wf_fresh hpos hn
      · cases heq
  | insert _ hroom hkeeps hrun ih => exact ih.insert hroom hkeeps hrun
  | remove _ hrun ih => exact ih.remove hrun
  | @walk t t' it it' cs vs s₀ s s' _ hmake hrun ih =>
    obtain ⟨it₀, hc, -, hattempt⟩ := hashTableMakeIterator_spec ih
    obtain ⟨made, s₁, hmake', hmade⟩ := hattempt s₀
    obtain ⟨heq, -⟩ := Run.Returns.unique hmake hmake'
    rcases hmade with ⟨-, rfl, -⟩ | ⟨-, rfl, -⟩
    · obtain rfl := Option.some.inj heq
      exact ih.walk hc hrun
    · cases heq

/-- In any run in which no insertion drops a pair: an insertion that need not grow the table is
all or nothing, and counts the pairs, exactly if it drops no pair either. -/
theorem insert_atomic_iff (h : t.Attained) (hsmall : t.numElements < u32 (3 * t.numBuckets))
    (kv : HTKeyValue V) (s : Schedule) : Atomic t kv s ↔ dropsPair t kv s = false :=
  atomic_iff h.wf hsmall kv s

end Failures

/-- A bucket with a pair. -/
def onePair : HashTable ℕ := ⟨1, 1, [⟨1, some 0, some 0, ⟨[some ⟨⟨7, 1⟩, none, none⟩]⟩⟩]⟩

theorem attained_onePair : onePair.Attained := by
  have hfresh : (HashTable.fresh ℕ 1).Attained :=
    .allocate (s := []) (by decide) (allocateHashTable_yields (by decide))
  have hrun : (insertHashTable (HashTable.fresh ℕ 1) ⟨7, 1⟩).Returns [] (1, onePair, none) [] := rfl
  exact hfresh.insert (by decide) (by decide) hrun

/-- Without memory for the iterator the pair stays. -/
theorem insert_atomic_iff_iterator : Atomic onePair ⟨7, 2⟩ [true, false] :=
  (insert_atomic_iff attained_onePair (by decide) ⟨7, 2⟩ _).mpr (by decide)

/-- Without memory for the node the pair is gone, and counted. -/
theorem pair_dropped : onePair.Attained ∧ onePair.numElements < u32 (3 * onePair.numBuckets) ∧
    ¬ Atomic onePair ⟨7, 2⟩ [true, true, false] := by
  refine ⟨attained_onePair, by decide, ?_⟩
  rintro ⟨code, t', old, s', hrun, -, hcount⟩
  have hresult : (insertHashTable onePair ⟨7, 2⟩ [true, true, false]).toOption.map
      (fun r => (r.1.2.1.numElements, r.1.2.1.entries.length)) = some (1, 0) := by decide
  rw [Run.Returns] at hrun
  rw [hrun] at hresult
  obtain ⟨hone, hzero⟩ := Prod.mk.inj (Option.some.inj hresult)
  rw [hone, hzero] at hcount
  cases hcount

end MultithreadedWebServer
