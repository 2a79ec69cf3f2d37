import MultithreadedWebServer.Rehash

/-!
# Whole runs of the hash table

Two kinds of runs. A client calls `InsertHashTable`, `LookupHashTable` and
`RemoveFromHashTable` in any order: `runOps`, compared with `MapState.run`, the same
operations on a finite map. A client walks the table with an iterator and at every
position keeps the pair or deletes it: `walkTable`.

Each comparison is a relation between the two sides, a lemma that one operation keeps
it, and the induction over the run.
-/

namespace MultithreadedWebServer

section MapRuns

variable {V : Type}

/-! ## The map a client sees -/

/-- A call a client makes. -/
inductive HTOp (V : Type) : Type where
  /-- `InsertHashTable(table, kv, ..)` -/
  | insert (kv : HTKeyValue V)
  /-- `LookupHashTable(table, key, ..)` -/
  | lookup (key : UInt64)
  /-- `RemoveFromHashTable(table, key, ..)` -/
  | remove (key : UInt64)
  deriving DecidableEq

/-- What a call hands back: the return code and the pair it writes. -/
abbrev HTResult (V : Type) : Type := ℤ × Option (HTKeyValue V)

/-- One call, with a bound on how deep a resize may nest. -/
def runOp (depth : ℕ) (table : HashTable V) :
    HTOp V → Run Schedule (HTResult V × HashTable V)
  | .insert kv => do
    let (code, table, old) ← insertNested depth table kv
    return (((code : ℤ), old), table)
  | .lookup key => do
    let result ← lookupHashTable table key
    return (result, table)
  | .remove key => do
    let (code, table, kv) ← removeFromHashTable table key
    return ((code, kv), table)

/-- A sequence of calls. -/
def runOps (depth : ℕ) (table : HashTable V) :
    List (HTOp V) → Run Schedule (List (HTResult V) × HashTable V)
  | [] => pure ([], table)
  | op :: ops => do
    let (result, table) ← runOp depth table op
    let (results, table) ← runOps depth table ops
    return (result :: results, table)

/-- A finite map, with the number of buckets a table that holds it has come to. -/
structure MapState (V : Type) where
  /-- how many buckets carry the map -/
  numBuckets : ℕ
  /-- the map -/
  map : Finmap fun _ : UInt64 => V

/-- What looking up a key in a finite map reports. -/
def MapState.find (s : MapState V) (key : UInt64) : HTResult V :=
  match s.map.lookup key with
  | some v => (1, some ⟨key, v⟩)
  | none => (0, none)

/-- One call on a finite map. -/
def MapState.step (s : MapState V) : HTOp V → HTResult V × MapState V
  | .insert kv =>
    (match s.map.lookup kv.key with
      | some v => (2, some ⟨kv.key, v⟩)
      | none => (1, none),
      ⟨grownBuckets s.numBuckets s.map.keys.card, s.map.insert kv.key kv.value⟩)
  | .lookup key => (s.find key, s)
  | .remove key => (s.find key, ⟨s.numBuckets, s.map.erase key⟩)

/-- A sequence of calls on a finite map. -/
def MapState.run (s : MapState V) : List (HTOp V) → List (HTResult V) × MapState V
  | [] => ([], s)
  | op :: ops =>
    let (result, s) := s.step op
    let (results, s) := s.run ops
    (result :: results, s)

theorem le_grownBuckets (numBuckets numElements : ℕ) :
    numBuckets ≤ grownBuckets numBuckets numElements := by
  unfold grownBuckets
  split <;> omega

/-- The number of buckets only grows. -/
theorem MapState.numBuckets_le_step (s : MapState V) (op : HTOp V) :
    s.numBuckets ≤ (s.step op).2.numBuckets := by
  cases op with
  | insert kv => exact le_grownBuckets _ _
  | lookup key => exact Nat.le_refl _
  | remove key => exact Nat.le_refl _

theorem MapState.numBuckets_le_run (s : MapState V) :
    ∀ ops : List (HTOp V), s.numBuckets ≤ (s.run ops).2.numBuckets
  | [] => Nat.le_refl _
  | op :: ops =>
    (s.numBuckets_le_step op).trans ((s.step op).2.numBuckets_le_run ops)

/-! ## The simulation -/

/-- The table holds the map, in that many buckets, at most three pairs to a bucket. -/
structure Holds (t : HashTable V) (s : MapState V) : Prop where
  /-- the table invariant -/
  wf : t.WF
  /-- the bucket count is the one the map side predicts -/
  buckets : t.numBuckets = s.numBuckets
  /-- the contents agree -/
  contents : t.toFinmap = s.map
  /-- the load factor -/
  load : t.numElements ≤ 3 * t.numBuckets

theorem Holds.card {t : HashTable V} {s : MapState V} (h : Holds t s) :
    s.map.keys.card = t.numElements := by
  rw [← h.contents, HashTable.toFinmap, card_asFinmap h.wf.distinct, h.wf.count]

/-- What `Inserts` says about the finite maps. -/
theorem Inserts.toFinmap {t t' : HashTable V} (h : t.WF) (h' : t'.WF) {kv : HTKeyValue V}
    {code : ℕ} {old : Option (HTKeyValue V)} (hins : Inserts t kv code t' old) :
    t'.toFinmap = t.toFinmap.insert kv.key kv.value ∧
      ((code : ℤ), old) = match t.toFinmap.lookup kv.key with
        | some v => (2, some ⟨kv.key, v⟩)
        | none => (1, none) := by
  rcases hins with ⟨rfl, rfl, hperm, hne⟩ | ⟨prev, rest, rfl, rfl, hkey, hperm, hperm'⟩
  · refine ⟨?_, ?_⟩
    · rw [HashTable.toFinmap, asFinmap_perm h'.distinct hperm, asFinmap_cons]
      rfl
    · rw [HashTable.toFinmap, lookup_asFinmap_of_absent hne]
      rfl
  · have hprev : prev ∈ t.entries := hperm.mem_iff.mpr List.mem_cons_self
    refine ⟨?_, ?_⟩
    · rw [HashTable.toFinmap, HashTable.toFinmap, asFinmap_perm h'.distinct hperm',
        asFinmap_perm h.distinct hperm, asFinmap_cons, asFinmap_cons, hkey, Finmap.insert_insert]
    · rw [HashTable.toFinmap, ← hkey, lookup_asFinmap_of_mem h.distinct hprev]
      rfl

/-- One call keeps the table in step with the map. -/
theorem runOp_holds {t : HashTable V} {s : MapState V} (h : Holds t s) (depth : ℕ)
    (op : HTOp V) (hcap : 9 * (s.step op).2.numBuckets < 2 ^ 32) :
    ∃ t', Yields (runOp (depth + 2) t op) ((s.step op).1, t') ∧ Holds t' (s.step op).2 := by
  cases op with
  | insert kv =>
    have hgrown : grownBuckets s.numBuckets s.map.keys.card =
        grownBuckets t.numBuckets t.numElements := by rw [h.card, h.buckets]
    have hcap : 9 * grownBuckets s.numBuckets s.map.keys.card < 2 ^ 32 := hcap
    rw [hgrown] at hcap
    obtain ⟨code, t', old, hrun, hwf, hnb, hload, hins⟩ :=
      insertNested_grown h.wf h.load hcap depth kv
    obtain ⟨hmap, hcode⟩ := hins.toFinmap h.wf hwf
    have hrun : insertNested (depth + 2) t kv [] = _ := hrun
    refine ⟨t', ?_, hwf, hnb.trans hgrown.symm, hmap.trans (by rw [h.contents]; rfl), hload⟩
    rw [h.contents] at hcode
    simp [Run.Returns, runOp, Run.bind_apply, hrun, hcode, MapState.step]
  | lookup key =>
    have hrun : lookupHashTable t key [] = _ := lookupHashTable_toFinmap h.wf key
    rw [h.contents] at hrun
    refine ⟨t, ?_, h⟩
    rcases hfind : s.map.lookup key with _ | v <;> rw [hfind] at hrun <;>
      simp [Run.Returns, runOp, Run.bind_apply, hrun, MapState.step, MapState.find, hfind]
  | remove key =>
    rcases removeFromHashTable_yields h.wf key with
      ⟨t', kv, hrun, hwf, hnb, rfl, hperm⟩ | ⟨hmiss, hrun⟩
    · have hrun : removeFromHashTable t kv.key [] = _ := hrun
      have hkv : kv ∈ t.entries := hperm.mem_iff.mpr List.mem_cons_self
      have hlook : s.map.lookup kv.key = some kv.value := by
        rw [← h.contents]
        exact lookup_asFinmap_of_mem h.wf.distinct hkv
      have hmap : t'.toFinmap = s.map.erase kv.key := by
        rw [← h.contents, HashTable.toFinmap, HashTable.toFinmap,
          asFinmap_perm h.wf.distinct hperm, ← asFinmap_erase (h.wf.distinct.perm hperm)]
      refine ⟨t', ?_, hwf, hnb.trans h.buckets, hmap, ?_⟩
      · simp [Run.Returns, runOp, Run.bind_apply, hrun, MapState.step, MapState.find, hlook]
      · have hlen := hperm.length_eq
        rw [List.length_cons, ← h.wf.count, ← hwf.count] at hlen
        have hload := h.load
        omega
    · have hrun : removeFromHashTable t key [] = _ := hrun
      have hlook : s.map.lookup key = none := by
        rw [← h.contents]
        exact lookup_asFinmap_of_absent hmiss
      refine ⟨t, ?_, h.wf, h.buckets, ?_, h.load⟩
      · simp [Run.Returns, runOp, Run.bind_apply, hrun, MapState.step, MapState.find, hlook]
      · refine h.contents.trans (Finmap.ext_lookup fun k => ?_)
        by_cases hk : k = key
        · rw [hk, hlook]
          exact (Finmap.lookup_erase key s.map).symm
        · exact (Finmap.lookup_erase_ne hk).symm

/-- A whole run keeps the table in step with the map. -/
theorem runOps_holds (depth : ℕ) : ∀ (ops : List (HTOp V)) {t : HashTable V} {s : MapState V},
    Holds t s → 9 * (s.run ops).2.numBuckets < 2 ^ 32 →
    ∃ t', Yields (runOps (depth + 2) t ops) ((s.run ops).1, t') ∧ Holds t' (s.run ops).2
  | [], t, _, h, _ => ⟨t, rfl, h⟩
  | op :: ops, t, s, h, hcap => by
    have hle := (s.step op).2.numBuckets_le_run ops
    have hcap' : 9 * ((s.step op).2.run ops).2.numBuckets < 2 ^ 32 := hcap
    obtain ⟨t₁, hrun₁, h₁⟩ := runOp_holds h depth op (by omega)
    obtain ⟨t', hrun, h'⟩ := runOps_holds depth ops h₁ hcap
    exact ⟨t', hrun₁.bind (hrun.bind (.pure _ _)), h'⟩

/-- A fresh table holds the empty map. -/
theorem holds_fresh {numBuckets : ℕ} (hpos : 0 < numBuckets) (hs : numBuckets < 2 ^ 32) :
    Holds (HashTable.fresh V numBuckets) ⟨numBuckets, ∅⟩ where
  wf := HashTable.wf_fresh hpos hs
  buckets := rfl
  contents := by
    rw [HashTable.toFinmap, HashTable.fresh_entries]
    rfl
  load := Nat.zero_le _

/-- The counter of a well-formed table is the sum of its chain lengths. -/
theorem HashTable.WF.numElements_eq_sum {t : HashTable V} (h : t.WF) :
    t.numElements = (t.buckets.map numElementsInLinkedList).sum := by
  have hlen : t.buckets.map numElementsInLinkedList =
      t.buckets.map fun chain => chain.toList.length :=
    List.map_congr_left fun chain hc => (h.chains chain hc).numElements_eq
  rw [h.count, HashTable.entries, List.length_flatMap, hlen]

/-- The hash table is a finite map: from any initial number of buckets, every sequence of
calls reports what the finite map reports and leaves a table that holds the map, as long
as nine times the number of buckets fits `HWSize_t`. A bound of two on the nesting of
`InsertHashTable` and `ResizeHashtable` is never reached. -/
theorem hashTable_refines_finmap (numBuckets : ℕ) (hpos : 1 ≤ numBuckets)
    (ops : List (HTOp V))
    (hcap : 9 * (MapState.run ⟨numBuckets, ∅⟩ ops).2.numBuckets < 2 ^ 32)
    (depth : ℕ) (hdepth : 2 ≤ depth) :
    ∃ t₀ t, Yields (allocateHashTable numBuckets) (some t₀) ∧
      Yields (runOps depth t₀ ops) ((MapState.run ⟨numBuckets, ∅⟩ ops).1, t) ∧
      t.toFinmap = (MapState.run ⟨numBuckets, ∅⟩ ops).2.map ∧
      (∀ i chain, t.buckets[i]? = some chain →
        ∀ kv ∈ chain.toList, kv.key.toNat % t.numBuckets = i) ∧
      DistinctKeys t.entries ∧
      t.numElements = (t.buckets.map numElementsInLinkedList).sum ∧
      t.numElements ≤ 3 * t.numBuckets ∧ t.WF := by
  have hle := MapState.numBuckets_le_run (⟨numBuckets, ∅⟩ : MapState V) ops
  have hle : numBuckets ≤ _ := hle
  obtain ⟨depth, rfl⟩ := Nat.exists_eq_add_of_le' hdepth
  obtain ⟨t, hrun, h⟩ := runOps_holds depth ops (holds_fresh hpos (by omega)) hcap
  exact ⟨_, t, allocateHashTable_yields hpos, hrun, h.contents, h.wf.place, h.wf.distinct,
    h.wf.numElements_eq_sum, h.load, h.wf⟩

/-- One bucket, three calls on colliding keys. -/
theorem hashTable_refines_finmap_one_bucket :
    ∃ t₀ t : HashTable ℕ, Yields (allocateHashTable 1) (some t₀) ∧
      Yields (runOps 2 t₀ [.insert ⟨7, 1⟩, .insert ⟨7, 2⟩, .remove 7])
        ([(1, none), (2, some ⟨7, 1⟩), (1, some ⟨7, 2⟩)], t) := by
  obtain ⟨t₀, t, halloc, hrun, -⟩ := hashTable_refines_finmap 1 (by decide)
    [.insert ⟨7, 1⟩, .insert ⟨7, 2⟩, .remove (7 : UInt64)] (by decide) 2 (by decide)
  exact ⟨t₀, t, halloc, hrun⟩

end MapRuns

/-! ## Walking with an iterator -/

section Walk

variable {V : Type}

/-- What a client does at a position of the iterator. -/
inductive Choice : Type where
  /-- look at the pair, then `HTIteratorNext` -/
  | advance
  /-- `HTIteratorDelete` -/
  | remove
  deriving DecidableEq

/-- What happened at a position: the pair that was returned, and the code of
`HTIteratorNext` or `HTIteratorDelete`. -/
abbrev Visit (V : Type) : Type := Option (HTKeyValue V) × ℕ

/-- The code a choice gets, by whether the pair is the last one: `HTIteratorNext` says 0
there, `HTIteratorDelete` says 2. -/
def Choice.code (c : Choice) (last : Bool) : ℕ :=
  match c with
  | .advance => if last then 0 else 1
  | .remove => if last then 2 else 1

/-- The visits that belong to a list of pairs and the choices made at them. Past the end
nothing is returned, with code 0. -/
def visits : List (HTKeyValue V) → List Choice → List (Visit V)
  | _, [] => []
  | [], _ :: cs => (none, 0) :: visits [] cs
  | kv :: rest, c :: cs => (some kv, c.code rest.isEmpty) :: visits rest cs

/-- The pairs that were not deleted. -/
def survivors : List (HTKeyValue V) → List Choice → List (HTKeyValue V)
  | rest, [] => rest
  | [], _ :: _ => []
  | kv :: rest, .advance :: cs => kv :: survivors rest cs
  | _ :: rest, .remove :: cs => survivors rest cs

/-- Each pair is visited at its own position, and the code tells the last one. -/
theorem visits_getElem? : ∀ (es : List (HTKeyValue V)) (cs : List Choice) (j : ℕ) (c : Choice),
    cs[j]? = some c → j < es.length →
      (visits es cs)[j]? = some (es[j]?, c.code (decide (j + 1 = es.length)))
  | es, [], j, c, hc, _ => by simp at hc
  | [], _ :: _, j, _, _, hj => absurd hj (Nat.not_lt_zero j)
  | kv :: rest, c' :: cs, 0, c, hc, _ => by
    obtain rfl : c' = c := by simpa using hc
    cases rest <;> simp [visits]
  | kv :: rest, c' :: cs, j + 1, c, hc, hj => by
    have ih := visits_getElem? rest cs j c (by simpa using hc) (Nat.lt_of_succ_lt_succ hj)
    simpa [visits] using ih

theorem length_visits : ∀ (es : List (HTKeyValue V)) (cs : List Choice),
    (visits es cs).length = cs.length
  | [], [] | _ :: _, [] => rfl
  | [], _ :: cs => by rw [visits, List.length_cons, length_visits [] cs, List.length_cons]
  | _ :: rest, _ :: cs => by rw [visits, List.length_cons, length_visits rest cs, List.length_cons]

/-- Each deletion takes one pair. -/
theorem length_survivors : ∀ (es : List (HTKeyValue V)) (cs : List Choice),
    cs.length ≤ es.length → (survivors es cs).length + cs.count .remove = es.length
  | [], [], _ | _ :: _, [], _ => rfl
  | [], _ :: _, h => absurd h (Nat.not_succ_le_zero _)
  | kv :: rest, .advance :: cs, h => by
    have ih := length_survivors rest cs (Nat.le_of_succ_le_succ h)
    rw [survivors, List.count_cons_of_ne (by decide), List.length_cons, List.length_cons]
    omega
  | kv :: rest, .remove :: cs, h => by
    have ih := length_survivors rest cs (Nat.le_of_succ_le_succ h)
    rw [survivors, List.count_cons_self, List.length_cons]
    omega

/-- A valid iterator is inside the bucket array. -/
theorem Cursor.bucketNum_lt {t : HashTable V} (h : t.WF) {it : HTIter}
    {rest : List (HTKeyValue V)} (hc : Cursor t it rest) (hv : it.isValid = true) :
    it.bucketNum < t.numBuckets := by
  cases hc with
  | on hi hrepr =>
    rw [h.size]
    exact (List.getElem?_eq_some_iff.mp hi).1
  | past hv' => rw [hv'] at hv; cases hv

variable [DecidableEq V]

/-- One position. -/
def visit (ht : HashTable V) (it : HTIter) :
    Choice → Run Schedule (Visit V × HashTable V × HTIter)
  | .advance => do
    let keyvalue ← htIteratorGet ht it
    let (code, it) ← htIteratorNext ht it
    return ((keyvalue, code), ht, it)
  | .remove => do
    let (code, ht, it, keyvalue) ← htIteratorDelete ht it
    return ((keyvalue, code), ht, it)

/-- One choice after the other. -/
def walkTable (ht : HashTable V) (it : HTIter) :
    List Choice → Run Schedule (List (Visit V) × HashTable V × HTIter)
  | [] => pure ([], ht, it)
  | c :: cs => do
    let (v, ht, it) ← visit ht it c
    let (vs, ht, it) ← walkTable ht it cs
    return (v :: vs, ht, it)

/-- One position: the pair under the iterator is returned, the others are to come. -/
theorem visit_yields {t : HashTable V} (h : t.WF) {it : HTIter} {kv : HTKeyValue V}
    {rest : List (HTKeyValue V)} (hc : Cursor t it (kv :: rest)) (c : Choice) :
    ∃ t' it', Yields (visit t it c) ((some kv, c.code rest.isEmpty), t', it') ∧ t'.WF ∧
      Cursor t' it' rest ∧
      (if c = .remove then t.entries.Perm (kv :: t'.entries) else t' = t) := by
  have hlast : rest.isEmpty = decide (rest = []) := by rcases rest <;> rfl
  cases c with
  | advance =>
    obtain ⟨it', hrun, hc'⟩ := htIteratorNext_yields h hc
    have hrun : htIteratorNext t it [] = _ := hrun
    refine ⟨t, it', ?_, h, hc', rfl⟩
    simp [Run.Returns, visit, htIteratorGet_spec h hc, Run.bind_apply, hrun, Choice.code]
  | remove =>
    obtain ⟨t', it', hrun, h', hc', hperm, -⟩ := htIteratorDelete_yields h hc
    have hrun : htIteratorDelete t it [] = _ := hrun
    refine ⟨t', it', ?_, h', hc', hperm⟩
    simp [Run.Returns, visit, Run.bind_apply, hrun, Choice.code]

/-- Past the end a choice does nothing. -/
theorem visit_eq_pure {t : HashTable V} {it : HTIter} (hv : it.isValid = false) (c : Choice) :
    visit t it c = pure ((none, 0), t, it) := by
  cases c with
  | advance => simp [visit, htIteratorGet_past hv, htIteratorNext, hv]
  | remove => simp [visit, htIteratorDelete, htIteratorGet_past hv]

theorem visit_past {t : HashTable V} {it : HTIter} (hv : it.isValid = false) (c : Choice) :
    Yields (visit t it c) ((none, 0), t, it) := by
  rw [visit_eq_pure hv]
  rfl

/-- A walk over the pairs still to come; `passed` are the pairs of the table that the
iterator has left behind. -/
theorem walkTable_yields : ∀ (cs : List Choice) {t : HashTable V} {it : HTIter}
    {rest passed : List (HTKeyValue V)}, t.WF → Cursor t it rest →
    t.entries.Perm (passed ++ rest) →
    ∃ t' it', Yields (walkTable t it cs) (visits rest cs, t', it') ∧ t'.WF ∧
      Cursor t' it' (rest.drop cs.length) ∧
      t'.entries.Perm (passed ++ survivors rest cs)
  | [], t, it, rest, _, h, hc, hp => by
    refine ⟨t, it, ?_, h, hc, ?_⟩
    · rw [visits.eq_def]
      rcases rest <;> rfl
    · rcases rest <;> exact hp
  | c :: cs, t, it, [], passed, h, hc, hp => by
    have hv : it.isValid = false := by cases hc; assumption
    obtain ⟨t', it', hrun, h', hc', hp'⟩ := walkTable_yields cs h hc hp
    refine ⟨t', it', (visit_past hv c).bind (hrun.bind (.pure _ _)), h', ?_, ?_⟩
    · rwa [List.drop_nil] at hc' ⊢
    · rcases cs <;> exact hp'
  | c :: cs, t, it, kv :: rest, passed, h, hc, hp => by
    obtain ⟨t₁, it₁, hvisit, h₁, hc₁, hchange⟩ := visit_yields h hc c
    cases c with
    | advance =>
      obtain rfl : t₁ = t := hchange
      have hp₁ : t₁.entries.Perm ((passed ++ [kv]) ++ rest) := by simpa using hp
      obtain ⟨t', it', hrun, h', hc', hp'⟩ := walkTable_yields cs h₁ hc₁ hp₁
      exact ⟨t', it', hvisit.bind (hrun.bind (.pure _ _)), h', hc',
        by simpa [survivors] using hp'⟩
    | remove =>
      have hperm : t.entries.Perm (kv :: t₁.entries) := hchange
      have hp₁ : t₁.entries.Perm (passed ++ rest) :=
        (hperm.symm.trans (hp.trans List.perm_middle)).cons_inv
      obtain ⟨t', it', hrun, h', hc', hp'⟩ := walkTable_yields cs h₁ hc₁ hp₁
      exact ⟨t', it', hvisit.bind (hrun.bind (.pure _ _)), h', hc', hp'⟩

/-- The tables a client can have: allocated, then inserted into while the element
counter has room, removed from, and walked over. -/
inductive HashTable.Reachable : HashTable V → Prop
  /-- `AllocateHashTable` -/
  | allocate {n : ℕ} {t : HashTable V} (hn : n < 2 ^ 32)
      (hrun : Yields (allocateHashTable n) (some t)) : Reachable t
  /-- `InsertHashTable` -/
  | insert {t t' : HashTable V} {kv : HTKeyValue V} {code : ℕ} {old : Option (HTKeyValue V)}
      (h : Reachable t) (hroom : t.numElements + 1 < 2 ^ 32)
      (hrun : Yields (insertHashTable t kv) (code, t', old)) : Reachable t'
  /-- `RemoveFromHashTable` -/
  | remove {t t' : HashTable V} {key : UInt64} {code : ℤ} {kv : Option (HTKeyValue V)}
      (h : Reachable t) (hrun : Yields (removeFromHashTable t key) (code, t', kv)) :
      Reachable t'
  /-- an iterator from `HashTableMakeIterator`, advanced and deleted with -/
  | walk {t t' : HashTable V} {it it' : HTIter} {cs : List Choice} {vs : List (Visit V)}
      (h : Reachable t) (hmake : Yields (hashTableMakeIterator t) (some it))
      (hrun : Yields (walkTable t it cs) (vs, t', it')) : Reachable t'

/-- Every table a client can have is well formed. -/
theorem HashTable.Reachable.wf {t : HashTable V} (h : t.Reachable) : t.WF := by
  induction h with
  | @allocate n t hn hrun =>
    rcases Nat.eq_zero_or_pos n with rfl | hpos
    · have hnone : Yields (allocateHashTable 0) (none : Option (HashTable V)) := rfl
      cases (hnone.unique hrun).1
    · have heq := ((allocateHashTable_yields hpos).unique hrun).1
      rw [← Option.some.inj heq]
      exact wf_fresh hpos hn
  | @insert t t' kv code old _ hroom hrun ih =>
    obtain ⟨code', t'', old', hrun', hwf, -⟩ := insertHashTable_yields ih hroom kv
    have heq := (hrun'.unique hrun).1
    simp only [Prod.mk.injEq] at heq
    rw [← heq.2.1]
    exact hwf
  | @remove t t' key code kv _ hrun ih =>
    rcases removeFromHashTable_yields ih key with ⟨t'', kv', hrun', hwf, -⟩ | ⟨-, hrun'⟩
    · have heq := (hrun'.unique hrun).1
      simp only [Prod.mk.injEq] at heq
      rw [← heq.2.1]
      exact hwf
    · have heq := (hrun'.unique hrun).1
      simp only [Prod.mk.injEq] at heq
      rw [← heq.2.1]
      exact ih
  | @walk t t' it it' cs vs _ hmake hrun ih =>
    obtain ⟨it₀, hmake', hc⟩ := hashTableMakeIterator_yields ih
    obtain rfl := Option.some.inj (hmake'.unique hmake).1
    have hall : t.entries.Perm ([] ++ t.entries) := .refl _
    obtain ⟨t'', it'', hrun', hwf, -⟩ := walkTable_yields cs ih hc hall
    have heq := (hrun'.unique hrun).1
    simp only [Prod.mk.injEq] at heq
    rw [← heq.2.1]
    exact hwf

theorem HashTable.Reachable.insertAll {t t' : HashTable V} {kvs : List (HTKeyValue V)}
    (h : t.Reachable) (hroom : t.numElements + kvs.length < 2 ^ 32)
    (hrun : Yields (MultithreadedWebServer.insertAll t kvs) t') : t'.Reachable := by
  induction kvs generalizing t with
  | nil =>
    obtain ⟨rfl, -⟩ := Prod.mk.inj (Except.ok.inj hrun)
    exact h
  | cons kv kvs ih =>
    rw [List.length_cons] at hroom
    obtain ⟨code, t₁, old, hins, hwf, hinserts⟩ := insertHashTable_yields h.wf (by omega) kv
    have hgrow : t₁.numElements ≤ t.numElements + 1 := by
      rw [hwf.count, h.wf.count]
      rcases hinserts with ⟨-, -, hperm, -⟩ | ⟨prev, rest, -, -, -, hperm, hperm'⟩
      · rw [hperm.length_eq, List.length_cons]
      · rw [hperm.length_eq, hperm'.length_eq, List.length_cons, List.length_cons]
        omega
    have hrest : MultithreadedWebServer.insertAll t (kv :: kvs) [] =
        MultithreadedWebServer.insertAll t₁ kvs [] := Run.bind_ok hins
    have hroom' : t.numElements + 1 < 2 ^ 32 := by omega
    exact ih (h.insert hroom' hins) (by omega) (hrest.symm.trans hrun)

/-- Six pairs in two buckets, three to each. -/
def sixPairs : HashTable ℕ :=
  ⟨2, 6,
    [⟨3, some 2, some 0, ⟨[some ⟨⟨0, 0⟩, none, some 1⟩, some ⟨⟨2, 2⟩, some 0, some 2⟩,
        some ⟨⟨4, 4⟩, some 1, none⟩]⟩⟩,
      ⟨3, some 2, some 0, ⟨[some ⟨⟨1, 1⟩, none, some 1⟩, some ⟨⟨3, 3⟩, some 0, some 2⟩,
        some ⟨⟨5, 5⟩, some 1, none⟩]⟩⟩]⟩

theorem reachable_sixPairs : sixPairs.Reachable := by
  have hfresh : (HashTable.fresh ℕ 2).Reachable :=
    .allocate (by decide) (allocateHashTable_yields (by decide))
  have hrun : Yields (insertAll (HashTable.fresh ℕ 2)
      [⟨0, 0⟩, ⟨1, 1⟩, ⟨2, 2⟩, ⟨3, 3⟩, ⟨4, 4⟩, ⟨5, 5⟩]) sixPairs := rfl
  exact hfresh.insertAll (by decide) hrun

/-- Iteration with deletion visits everything once: whatever is chosen at each position
of a fresh iterator, the run goes through without a failed check or an access outside
the bucket array, position `j` returns the `j`-th pair of the table, the codes tell the
last pair, and the pairs that were not deleted are what is left. -/
theorem iteration_visits_once {t : HashTable V} (h : t.Reachable) (cs : List Choice) :
    ∃ it₀ t' it' log, Yields (hashTableMakeIterator t) (some it₀) ∧
      Yields (walkTable t it₀ cs) (log, t', it') ∧ log.length = cs.length ∧
      DistinctKeys t.entries ∧
      (∀ (j : ℕ) (c : Choice), cs[j]? = some c → j < t.entries.length →
        log[j]? = some (t.entries[j]?, c.code (decide (j + 1 = t.entries.length)))) ∧
      (htIteratorPastEnd t' it' = true ↔ t.entries.length ≤ cs.length) ∧
      t'.entries.Perm (survivors t.entries cs) ∧ t'.numElements = t'.entries.length ∧
      (cs.length ≤ t.entries.length → t'.numElements + cs.count .remove = t.numElements) ∧
      (it'.isValid = true → it'.bucketNum < t'.numBuckets) ∧ t'.WF := by
  have hwf := h.wf
  obtain ⟨it₀, hmake, hc₀⟩ := hashTableMakeIterator_yields hwf
  have hall : t.entries.Perm ([] ++ t.entries) := .refl _
  obtain ⟨t', it', hrun, hwf', hc', hp⟩ := walkTable_yields cs hwf hc₀ hall
  refine ⟨it₀, t', it', _, hmake, hrun, length_visits _ _, hwf.distinct, visits_getElem? _ _,
    ?_, hp, hwf'.count, ?_, hc'.bucketNum_lt hwf', hwf'⟩
  · rw [htIteratorPastEnd_spec hwf' hc', decide_eq_true_iff, List.drop_eq_nil_iff]
  · intro hlen
    rw [hwf'.count, hwf.count, hp.length_eq, List.nil_append, length_survivors _ _ hlen]

/-- Half of the pairs in two chains are deleted on the way, the first and the last stay. -/
theorem iteration_visits_once_sixPairs : ∃ (it₀ it' : HTIter) (t' : HashTable ℕ)
      (log : List (Visit ℕ)),
    Yields (hashTableMakeIterator sixPairs) (some it₀) ∧
    Yields (walkTable sixPairs it₀ [.advance, .remove, .advance, .remove, .remove, .advance])
      (log, t', it') ∧ log.length = 6 ∧ log[2]? = some (some ⟨0, 0⟩, 1) ∧
    log[3]? = some (some ⟨5, 5⟩, 1) ∧ log[5]? = some (some ⟨1, 1⟩, 0) ∧
    t'.entries.Perm [⟨4, 4⟩, ⟨0, 0⟩, ⟨1, 1⟩] ∧ htIteratorPastEnd t' it' = true := by
  obtain ⟨it₀, t', it', log, hmake, hrun, hlen, -, hlog, hpast, hperm, -⟩ :=
    iteration_visits_once reachable_sixPairs
      [.advance, .remove, .advance, .remove, .remove, .advance]
  exact ⟨it₀, it', t', log, hmake, hrun, hlen, hlog 2 .advance rfl (by decide),
    hlog 3 .remove rfl (by decide), hlog 5 .advance rfl (by decide), hperm,
    hpast.mpr (by decide)⟩

end Walk

end MultithreadedWebServer
