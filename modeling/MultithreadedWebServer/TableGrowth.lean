import MultithreadedWebServer.TableRuns

/-!
# What growing a table costs

`ResizeHashtable` inserts every pair of a full table into a table of nine times the buckets.
`rehashCounted` is its loop with a counter for the rounds, and `runMoves` adds them up over the
calls of a client. Without the counter these are the operations of the table.

The number of buckets pays for the moves: a table is full at exactly three pairs a bucket, so that
eight moves go with three new buckets, in every resize and therefore in every run. And a table has
no more buckets than it needed: at most three for each insertion, unless it was made that large.
-/

namespace MultithreadedWebServer

section Growth

variable {V : Type}

/-! ## The loop with a counter -/

/-- An insertion, and the rounds of the loops of `ResizeHashtable` in it. -/
abbrev CountedInsertion (V : Type) : Type :=
  HashTable V → HTKeyValue V → Run Schedule (ℕ × ℕ × HashTable V × Option (HTKeyValue V))

/-- The loop of `ResizeHashtable`, and its rounds, with those of the insertions. -/
def rehashCounted (insert : CountedInsertion V) (ht : HashTable V) :
    ℕ → HTIter → HashTable V → Run Schedule (ℕ × Bool × HashTable V)
  | 0, _, _ => Run.stop .diverges
  | fuel + 1, it, newht => do
    if htIteratorPastEnd ht it then
      return (0, true, newht)
    else
      match ← htIteratorGet ht it with
      | none => Run.stop .verify333
      | some item =>
        let (moves, res, newht, _) ← insert newht item
        if res = 1 then
          let (_, it) ← htIteratorNext ht it
          let (more, result) ← rehashCounted insert ht fuel it newht
          return (moves + 1 + more, result)
        else
          return (moves + 1, false, newht)

/-- `ResizeHashtable`, and the rounds of its loop. -/
def resizeCounted (insert : CountedInsertion V) (ht : HashTable V) :
    Run Schedule (ℕ × HashTable V) := do
  if ht.numElements < u32 (3 * ht.numBuckets) then
    return (0, ht)
  else
    match ← allocateHashTable (u32 (ht.numBuckets * 9)) with
    | none => return (0, ht)
    | some newht =>
      match ← hashTableMakeIterator ht with
      | none =>
        freeHashTable newht
        return (0, ht)
      | some it =>
        let (moves, worked, newht) ← rehashCounted insert ht (ht.numElements + 1) it newht
        if worked then
          freeHashTable ht
          return (moves, newht)
        else
          freeHashTable newht
          return (moves, ht)

/-- `InsertHashTable`, and the rounds. -/
def insertCounted : ℕ → CountedInsertion V
  | 0 => fun _ _ => Run.stop .diverges
  | depth + 1 => fun table newkeyvalue => do
    let (moves, table) ← resizeCounted (insertCounted depth) table
    let result ← insertIntoChain table newkeyvalue
    return (moves, result)

/-- One call, and the rounds. -/
def runOpCounted (depth : ℕ) (table : HashTable V) :
    HTOp V → Run Schedule (ℕ × HTResult V × HashTable V)
  | .insert kv => do
    let (moves, code, table, old) ← insertCounted depth table kv
    return (moves, ((code : ℤ), old), table)
  | .lookup key => do
    let result ← runOp depth table (.lookup key)
    return (0, result)
  | .remove key => do
    let result ← runOp depth table (.remove key)
    return (0, result)

/-- A sequence of calls, and the rounds, each of which moves a pair. -/
def runMoves (depth : ℕ) (table : HashTable V) : List (HTOp V) → Run Schedule (ℕ × HashTable V)
  | [] => pure (0, table)
  | op :: ops => do
    let (moves, _, table) ← runOpCounted depth table op
    let (more, table) ← runMoves depth table ops
    return (moves + more, table)

/-! ## The counter changes nothing -/

/-- A computation without its counter. -/
def uncounted {α : Type} (m : Run Schedule (ℕ × α)) : Run Schedule α := m >>= fun r => pure r.2

section Uncounted

variable {α β : Type}

@[simp] theorem uncounted_pure (r : ℕ × α) : uncounted (pure r) = pure r.2 := rfl

@[simp] theorem uncounted_stop (e : Stop) :
    uncounted (Run.stop e : Run Schedule (ℕ × α)) = Run.stop e := rfl

theorem uncounted_bind (m : Run Schedule β) (f : β → Run Schedule (ℕ × α)) :
    uncounted (m >>= f) = m >>= fun b => uncounted (f b) := Run.bind_assoc _ _ _

theorem uncounted_bind_pure (m : Run Schedule α) (k : ℕ) :
    uncounted (m >>= fun a => pure (k, a)) = m := by
  rw [uncounted_bind]
  exact (Run.lawful Schedule).bind_pure_comp id m |>.trans ((Run.lawful Schedule).id_map m)

/-- After a part with a counter of its own. -/
theorem uncounted_bind_counted {m : Run Schedule (ℕ × β)} {m' : Run Schedule β}
    {f : ℕ × β → Run Schedule (ℕ × α)} {g : β → Run Schedule α} (hm : uncounted m = m')
    (hf : ∀ r, uncounted (f r) = g r.2) : uncounted (m >>= f) = m' >>= g := by
  rw [uncounted_bind, ← hm, uncounted, Run.bind_assoc]
  exact congrArg (m >>= ·) (funext hf)

/-- A computation that returns does so with a counter. -/
theorem Yields.counted {m : Run Schedule (ℕ × α)} {a : α} (h : Yields (uncounted m) a) :
    ∃ k, Yields m (k, a) := by
  obtain ⟨⟨k, a'⟩, s, hrun, hlast⟩ := Run.bind_eq_ok h
  obtain ⟨rfl, rfl⟩ := Run.pure_eq_ok.mp hlast
  exact ⟨k, hrun⟩

end Uncounted

theorem uncounted_rehashCounted {insert : CountedInsertion V} {insert' : Insertion V}
    (h : ∀ newht kv, uncounted (insert newht kv) = insert' newht kv) (ht : HashTable V) :
    ∀ (fuel : ℕ) (it : HTIter) (newht : HashTable V),
      uncounted (rehashCounted insert ht fuel it newht) = rehash insert' ht fuel it newht
  | 0, _, _ => rfl
  | fuel + 1, it, newht => by
    rw [rehashCounted, rehash]
    split
    · rfl
    · rw [uncounted_bind]
      refine congrArg (htIteratorGet ht it >>= ·) (funext fun item => ?_)
      cases item with
      | none => rfl
      | some item =>
        refine uncounted_bind_counted (h newht item) fun r => ?_
        dsimp only
        split
        · rw [uncounted_bind]
          refine congrArg (htIteratorNext ht it >>= ·) (funext fun next => ?_)
          refine (uncounted_bind _ _).trans ?_
          exact uncounted_rehashCounted h ht fuel next.2 r.2.2.1
        · rfl

theorem uncounted_resizeCounted {insert : CountedInsertion V} {insert' : Insertion V}
    (h : ∀ newht kv, uncounted (insert newht kv) = insert' newht kv) (ht : HashTable V) :
    uncounted (resizeCounted insert ht) = resizeHashtable insert' ht := by
  rw [resizeCounted, resizeHashtable]
  split
  · rfl
  rw [uncounted_bind]
  refine congrArg (allocateHashTable _ >>= ·) (funext fun made => ?_)
  cases made with
  | none => rfl
  | some newht =>
    dsimp only
    rw [uncounted_bind]
    refine congrArg (hashTableMakeIterator ht >>= ·) (funext fun it => ?_)
    cases it with
    | none => exact uncounted_bind _ _
    | some it =>
      refine uncounted_bind_counted (uncounted_rehashCounted h ht _ it newht) fun r => ?_
      split
      · exact uncounted_bind _ _
      · exact uncounted_bind _ _

theorem uncounted_insertCounted : ∀ (depth : ℕ) (ht : HashTable V) (kv : HTKeyValue V),
    uncounted (insertCounted depth ht kv) = insertNested depth ht kv
  | 0, _, _ => rfl
  | depth + 1, ht, kv =>
    uncounted_bind_counted (uncounted_resizeCounted (uncounted_insertCounted depth) ht)
      fun r => uncounted_bind_pure (insertIntoChain r.2 kv) r.1

theorem uncounted_runOpCounted (depth : ℕ) (ht : HashTable V) (op : HTOp V) :
    uncounted (runOpCounted depth ht op) = runOp depth ht op := by
  cases op with
  | insert kv => exact uncounted_bind_counted (uncounted_insertCounted depth ht kv) fun _ => rfl
  | lookup key => exact uncounted_bind_pure (runOp depth ht (.lookup key)) 0
  | remove key => exact uncounted_bind_pure (runOp depth ht (.remove key)) 0

/-- The run that is counted leaves the table of `runOps`. -/
theorem uncounted_runMoves (depth : ℕ) : ∀ (ops : List (HTOp V)) (ht : HashTable V),
    uncounted (runMoves depth ht ops) = runOps depth ht ops >>= fun r => pure r.2
  | [], _ => rfl
  | op :: ops, ht => by
    rw [runMoves, runOps, Run.bind_assoc]
    refine uncounted_bind_counted (uncounted_runOpCounted depth ht op) fun r => ?_
    calc
      uncounted (runMoves depth r.2.2 ops >>= fun more => pure (r.1 + more.1, more.2))
        = uncounted (runMoves depth r.2.2 ops) := uncounted_bind _ _
      _ = runOps depth r.2.2 ops >>= fun results => pure results.2 :=
        uncounted_runMoves depth ops r.2.2
      _ = _ := (Run.bind_assoc (runOps depth r.2.2 ops)
        (fun results => pure (r.2.1 :: results.1, results.2)) fun last => pure last.2).symm

/-! ## The rounds of a resize -/

/-- Without growing nothing is counted. -/
theorem resizeCounted_small (insert : CountedInsertion V) {t : HashTable V}
    (hsmall : t.numElements < u32 (3 * t.numBuckets)) : resizeCounted insert t = pure (0, t) := by
  simp [resizeCounted, hsmall]

theorem insertCounted_small {depth : ℕ} {t : HashTable V}
    (hsmall : t.numElements < u32 (3 * t.numBuckets)) (kv : HTKeyValue V) :
    insertCounted (depth + 1) t kv = insertNested (depth + 1) t kv >>= fun r => pure (0, r) := by
  have hresize : resizeHashtable (insertNested depth) t = pure t := by
    simp [resizeHashtable, hsmall]
  rw [insertCounted, insertNested]
  dsimp only
  rw [resizeCounted_small _ hsmall, hresize]
  rfl

/-- As long as the new table need not grow itself, there is a round for every pair. -/
theorem rehashCounted_yields {insert : CountedInsertion V} {insert' : Insertion V}
    {G : HashTable V → Prop} {n : ℕ} {t : HashTable V} (hfill : Fills insert' G n)
    (hcount : ∀ newht kv, G newht → newht.numElements < n →
      insert newht kv = insert' newht kv >>= fun r => pure (0, r)) (h : t.WF) :
    ∀ (fuel : ℕ) {it : HTIter} {rest : List (HTKeyValue V)} {newht : HashTable V},
      Cursor t it rest → rest.length < fuel → newht.WF → G newht →
      newht.numElements + rest.length ≤ n → DistinctKeys (rest ++ newht.entries) →
      ∃ newht', Yields (rehashCounted insert t fuel it newht) (rest.length, true, newht')
  | 0, _, _, _, _, hfuel, _, _, _, _ => absurd hfuel (Nat.not_lt_zero _)
  | fuel + 1, it, [], newht, hc, _, _, _, _, _ => by
    refine ⟨newht, ?_⟩
    simp [Run.Returns, rehashCounted, htIteratorPastEnd_spec h hc]
  | fuel + 1, it, kv :: rest, newht, hc, hfuel, hwf, hG, hn, hd => by
    rw [List.length_cons] at hfuel hn
    obtain ⟨hne, -⟩ := distinctKeys_cons.mp hd
    obtain ⟨newht₁, hins, hwf₁, hG₁, hperm₁⟩ := hfill newht kv hwf hG (by omega)
      fun e he => hne e (List.mem_append.mpr (.inr he))
    obtain ⟨it', hnext, hc'⟩ := htIteratorNext_yields h hc
    have hnum : newht₁.numElements = newht.numElements + 1 := by
      rw [hwf₁.count, hperm₁.length_eq, hwf.count, List.length_cons]
    have hmove : (kv :: (rest ++ newht.entries)).Perm (rest ++ newht₁.entries) :=
      List.perm_middle.symm.trans (hperm₁.symm.append_left rest)
    obtain ⟨newht₂, hrun⟩ := rehashCounted_yields hfill hcount h fuel hc' (by omega) hwf₁ hG₁
      (by omega) (hd.perm hmove)
    have hins : insert newht kv [] = .ok ((0, 1, newht₁, none), []) := by
      rw [hcount newht kv hG (by omega)]
      exact Run.bind_ok hins
    have hnext : htIteratorNext t it [] = _ := hnext
    have hrun : rehashCounted insert t fuel it' newht₁ [] = _ := hrun
    refine ⟨newht₂, ?_⟩
    simp [Run.Returns, rehashCounted, htIteratorPastEnd_spec h hc, htIteratorGet_spec h hc,
      Run.bind_apply, hins, hnext, hrun, Nat.add_comm]

/-- The rounds of the loop of `ResizeHashtable`, if this call comes to it. -/
def resizeMoves (table : HashTable V) : HTOp V → ℕ
  | .insert _ => if table.numElements < u32 (3 * table.numBuckets) then 0 else table.numElements
  | .lookup _ => 0
  | .remove _ => 0

theorem resizeCounted_yields {t : HashTable V} (h : t.WF)
    (hload : u32 (3 * t.numBuckets) ≤ t.numElements →
      t.numElements ≤ u32 (3 * u32 (t.numBuckets * 9))) (depth : ℕ) (kv : HTKeyValue V) :
    ∃ t', Yields (resizeCounted (insertCounted (depth + 1)) t)
      (resizeMoves t (.insert kv), t') := by
  by_cases hsmall : t.numElements < u32 (3 * t.numBuckets)
  · rw [resizeCounted_small _ hsmall, resizeMoves, if_pos hsmall]
    exact ⟨t, rfl⟩
  have hload := hload (Nat.not_lt.mp hsmall)
  have hpos := u32_nine_pos h.pos h.small
  have halloc : allocateHashTable (u32 (t.numBuckets * 9)) [] = _ :=
    allocateHashTable_yields (V := V) hpos
  obtain ⟨it, hmake, hc⟩ := hashTableMakeIterator_yields h
  obtain ⟨t', hrun⟩ := rehashCounted_yields (insertNested_fills_small depth hload)
    (fun newht kv hnb hlt => insertCounted_small (by rw [hnb]; omega) kv) h (t.numElements + 1) hc
    (by rw [h.count]; omega) (HashTable.wf_fresh hpos (u32_lt _)) rfl
    (by rw [h.count, HashTable.fresh_numElements]; omega)
    (by rw [HashTable.fresh_entries, List.append_nil]; exact h.distinct)
  have hmake : hashTableMakeIterator t [] = _ := hmake
  have hrun : rehashCounted _ t _ it _ [] = _ := hrun
  refine ⟨t', ?_⟩
  simp [Run.Returns, resizeCounted, resizeMoves, hsmall, Run.bind_apply, halloc, hmake, hrun,
    freeHashTable_spec h, ← h.count]

/-- One call keeps the table in step with the map, and its rounds are known. -/
theorem runOpCounted_holds {t : HashTable V} {s : MapState V} (h : Holds t s) (depth : ℕ)
    (op : HTOp V) (hcap : 9 * (s.step op).2.numBuckets < 2 ^ 32) :
    ∃ t', Yields (runOpCounted (depth + 2) t op) (resizeMoves t op, (s.step op).1, t') ∧
      Holds t' (s.step op).2 := by
  obtain ⟨t', hrun, h'⟩ := runOp_holds h depth op hcap
  rw [← uncounted_runOpCounted] at hrun
  obtain ⟨moves, hrun⟩ := hrun.counted
  refine ⟨t', ?_, h'⟩
  obtain rfl : moves = resizeMoves t op := by
    cases op with
    | insert kv =>
      have hcap : 9 * grownBuckets s.numBuckets s.map.keys.card < 2 ^ 32 := hcap
      rw [h.card, ← h.buckets, grownBuckets] at hcap
      obtain ⟨t₁, hresize⟩ := resizeCounted_yields h.wf (fun hfull => by
        have hload := h.load
        have hthree : u32 (3 * t.numBuckets) = 3 * t.numBuckets := u32_of_lt (by
          split at hcap <;> omega)
        rw [if_neg (by omega)] at hcap
        rw [u32_of_lt (show t.numBuckets * 9 < 2 ^ 32 by omega), u32_of_lt (by omega)]
        omega) depth kv
      obtain ⟨⟨k, result⟩, s₁, hins, hlast⟩ := Run.bind_eq_ok hrun
      obtain ⟨⟨k', t₂⟩, s₂, hresize', hchain⟩ := Run.bind_eq_ok hins
      obtain ⟨heq, -⟩ := hresize.unique hresize'
      obtain ⟨chained, s₃, -, hchain⟩ := Run.bind_eq_ok hchain
      obtain ⟨heq', -⟩ := Run.pure_eq_ok.mp hchain
      obtain ⟨heq'', -⟩ := Run.pure_eq_ok.mp hlast
      rw [← (Prod.mk.inj heq'').1, ← (Prod.mk.inj heq').1, ← (Prod.mk.inj heq).1]
    | lookup key =>
      obtain ⟨result, s₁, -, hlast⟩ := Run.bind_eq_ok hrun
      exact (Prod.mk.inj (Run.pure_eq_ok.mp hlast).1).1.symm
    | remove key =>
      obtain ⟨result, s₁, -, hlast⟩ := Run.bind_eq_ok hrun
      exact (Prod.mk.inj (Run.pure_eq_ok.mp hlast).1).1.symm
  exact hrun

/-- The call is an insertion. -/
def HTOp.isInsert : HTOp V → Bool
  | .insert _ => true
  | .lookup _ => false
  | .remove _ => false

/-! ## The size of the table -/

/-- After so many insertions into a table that was made with `made` buckets. -/
structure Grown (made inserts : ℕ) (s : MapState V) : Prop where
  /-- there are no more pairs than insertions -/
  pairs : s.map.keys.card ≤ inserts
  /-- at most three pairs a bucket -/
  load : s.map.keys.card ≤ 3 * s.numBuckets
  /-- no more buckets than were needed -/
  needed : s.numBuckets = made ∨ s.numBuckets ≤ 3 * inserts

theorem Grown.numBuckets_le {made inserts : ℕ} {s : MapState V} (h : Grown made inserts s) :
    s.numBuckets ≤ max made (3 * inserts) := by
  rcases h.needed with heq | hle
  · exact heq ▸ Nat.le_max_left _ _
  · exact hle.trans (Nat.le_max_right _ _)

/-- An insertion adds one key or none. -/
theorem card_insert_le (m : Finmap fun _ : UInt64 => V) (kv : HTKeyValue V) :
    (m.insert kv.key kv.value).keys.card ≤ m.keys.card + 1 := by
  have hsub : (m.insert kv.key kv.value).keys ⊆ insert kv.key m.keys := by
    intro key hkey
    rw [Finmap.mem_keys, Finmap.mem_insert] at hkey
    rwa [Finset.mem_insert, Finmap.mem_keys]
  exact (Finset.card_le_card hsub).trans (Finset.card_insert_le _ _)

theorem card_erase_le (m : Finmap fun _ : UInt64 => V) (key : UInt64) :
    (m.erase key).keys.card ≤ m.keys.card := by
  refine Finset.card_le_card fun k hk => ?_
  rw [Finmap.mem_keys, Finmap.mem_erase] at hk
  exact Finmap.mem_keys.mpr hk.2

/-- One call. -/
theorem Grown.step {made inserts : ℕ} {s : MapState V} (h : Grown made inserts s)
    (hpos : 0 < s.numBuckets) (op : HTOp V) :
    Grown made (inserts + if op.isInsert then 1 else 0) (s.step op).2 := by
  have hpairs := h.pairs
  have hload := h.load
  cases op with
  | insert kv =>
    have hcard := card_insert_le s.map kv
    constructor
    case pairs =>
      exact hcard.trans (Nat.add_le_add_right hpairs 1)
    case load =>
      refine hcard.trans ?_
      change _ ≤ 3 * grownBuckets s.numBuckets s.map.keys.card
      unfold grownBuckets
      split <;> omega
    case needed =>
      change grownBuckets s.numBuckets s.map.keys.card = made ∨
        grownBuckets s.numBuckets s.map.keys.card ≤ 3 * (inserts + 1)
      unfold grownBuckets
      split
      · exact h.needed.imp_right fun hle => by omega
      · -- the full table has a third of a pair for each new bucket
        exact .inr (by omega)
  | lookup key => exact h
  | remove key =>
    have hcard := card_erase_le s.map key
    exact ⟨hcard.trans hpairs, hcard.trans hload, h.needed⟩

theorem Grown.run {made : ℕ} : ∀ (ops : List (HTOp V)) {inserts : ℕ} {s : MapState V},
    Grown made inserts s → 0 < s.numBuckets →
      Grown made (inserts + ops.countP HTOp.isInsert) (s.run ops).2
  | [], _, _, h, _ => h
  | op :: ops, inserts, s, h, hpos => by
    have hstep := h.step hpos op
    have hrest := Grown.run ops hstep (hpos.trans_le (s.numBuckets_le_step op))
    rw [List.countP_cons, Nat.add_comm (ops.countP _), ← Nat.add_assoc]
    exact hrest

/-! ## The moves -/

/-- Three new buckets for eight moves. -/
theorem resizeMoves_eq {t : HashTable V} {s : MapState V} (h : Holds t s)
    (hcap : 3 * s.numBuckets < 2 ^ 32) (op : HTOp V) :
    8 * resizeMoves t op + 3 * s.numBuckets = 3 * (s.step op).2.numBuckets := by
  cases op with
  | insert kv =>
    have hload := h.load
    change 8 * (if t.numElements < u32 (3 * t.numBuckets) then 0 else t.numElements) +
      3 * s.numBuckets = 3 * grownBuckets s.numBuckets s.map.keys.card
    rw [← h.buckets] at hcap ⊢
    rw [h.card, u32_of_lt hcap]
    unfold grownBuckets
    split <;> omega
  | lookup key => exact Nat.zero_add _
  | remove key => exact Nat.zero_add _

theorem runMoves_holds (depth : ℕ) : ∀ (ops : List (HTOp V)) {t : HashTable V} {s : MapState V},
    Holds t s → 9 * (s.run ops).2.numBuckets < 2 ^ 32 →
    ∃ moves t', Yields (runMoves (depth + 2) t ops) (moves, t') ∧ Holds t' (s.run ops).2 ∧
      8 * moves + 3 * s.numBuckets = 3 * (s.run ops).2.numBuckets
  | [], t, s, h, _ => ⟨0, t, rfl, h, Nat.zero_add _⟩
  | op :: ops, t, s, h, hcap => by
    have hhere := s.numBuckets_le_step op
    have hle := (s.step op).2.numBuckets_le_run ops
    have hcap' : 9 * ((s.step op).2.run ops).2.numBuckets < 2 ^ 32 := hcap
    have hmoves := resizeMoves_eq h (by omega) op
    obtain ⟨t₁, hrun₁, h₁⟩ := runOpCounted_holds h depth op (by omega)
    obtain ⟨more, t', hrun, h', hmore⟩ := runMoves_holds depth ops h₁ hcap
    refine ⟨resizeMoves t op + more, t', hrun₁.bind (hrun.bind (.pure _ _)), h', ?_⟩
    have hlast : (s.run (op :: ops)).2 = ((s.step op).2.run ops).2 := rfl
    rw [hlast]
    omega

/-- However a client mixes its calls, a table moves no more than nine pairs for eight insertions,
and has at most three buckets for each insertion, or those that it was made with. -/
theorem growth_is_amortized (numBuckets : ℕ) (hpos : 1 ≤ numBuckets) (ops : List (HTOp V))
    (hcap : 9 * max numBuckets (3 * ops.countP HTOp.isInsert) < 2 ^ 32)
    (depth : ℕ) (hdepth : 2 ≤ depth) :
    ∃ t₀ moves t, Yields (allocateHashTable numBuckets) (some t₀) ∧
      Yields (runMoves depth t₀ ops) (moves, t) ∧
      8 * moves + 3 * numBuckets = 3 * t.numBuckets ∧
      8 * moves ≤ 9 * ops.countP HTOp.isInsert ∧
      t.numBuckets ≤ max numBuckets (3 * ops.countP HTOp.isInsert) := by
  have hnew : Grown numBuckets 0 (⟨numBuckets, ∅⟩ : MapState V) :=
    ⟨Nat.le_refl 0, Nat.zero_le _, .inl rfl⟩
  have hgrown := hnew.run ops hpos
  rw [Nat.zero_add] at hgrown
  have hsize := hgrown.numBuckets_le
  obtain ⟨depth, rfl⟩ := Nat.exists_eq_add_of_le' hdepth
  obtain ⟨moves, t, hrun, h, hmoves⟩ :=
    runMoves_holds depth ops (holds_fresh hpos (by omega)) (by omega)
  have hmoves : 8 * moves + 3 * numBuckets = _ := hmoves
  refine ⟨_, moves, t, allocateHashTable_yields hpos, hrun, ?_, ?_, ?_⟩
  · rw [h.buckets]
    exact hmoves
  · rcases hgrown.needed with heq | hle
    · rw [heq] at hmoves
      omega
    · omega
  · rw [h.buckets]
    exact hsize

/-- Five insertions into one bucket: the fourth one moves three pairs. -/
theorem growth_is_amortized_one_bucket : ∃ (t₀ : HashTable ℕ) (moves : ℕ) (t : HashTable ℕ),
    Yields (allocateHashTable 1) (some t₀) ∧
      Yields (runMoves 2 t₀ ((List.range 5).map fun i => .insert ⟨UInt64.ofNat i, i⟩)) (moves, t) ∧
      8 * moves + 3 * 1 = 3 * t.numBuckets ∧ 8 * moves ≤ 9 * 5 ∧ t.numBuckets ≤ max 1 (3 * 5) :=
  growth_is_amortized 1 (by decide) ((List.range 5).map fun i => .insert ⟨UInt64.ofNat i, i⟩)
    (by decide) 2 (by decide)

end Growth

end MultithreadedWebServer
