import MultithreadedWebServer.CrawlRuns
import MultithreadedWebServer.Teardown

/-!
# What becomes of an index

`FreeMemIndex` frees the `WordDocSet`s, and with each of them its word and its posting lists. The
words and lists are values here, so that `IndexHeap` notes which of them were freed.

An index that `MIAddPostingList` has built has no `WordDocSet` that its table does not lead to
(`RecordTable.NoStray`). So `FreeMemIndex` leaves nothing behind, and frees nothing twice.
-/

namespace MultithreadedWebServer

/-! ## The free functions -/

/-- What `FreeMemIndex` works on. -/
structure IndexHeap where
  /-- the `WordDocSet`s -/
  sets : Arena WordDocSet
  /-- the words that were freed -/
  words : List CString
  /-- the posting lists that were freed -/
  lists : List (LinkedList UInt64)

/-- `MIListFree`; `MINullFree` does nothing. -/
def miListFree (list : LinkedList UInt64) : Run IndexHeap PUnit := do
  freeLinkedListWith (fun _ => pure ⟨⟩) list
  let heap ← Run.get
  Run.set { heap with lists := heap.lists ++ [list] }

/-- `MIFree`. -/
def miFree (wd : Addr) : Run IndexHeap PUnit := do
  let heap ← Run.get
  let set ← deref heap.sets (some wd)
  Run.set { heap with words := heap.words ++ [set.word] }
  freeHashTableWith miListFree set.docIDs
  let heap ← Run.get
  let sets ← release heap.sets (some wd)
  Run.set { heap with sets := sets }

/-- `FreeMemIndex`. -/
def freeMemIndex (index : MemIndex) : Run IndexHeap PUnit :=
  freeHashTableWith miFree index.table

/-- The posting lists of a `WordDocSet`. -/
def WordDocSet.lists (set : WordDocSet) : List (LinkedList UInt64) :=
  set.docIDs.entries.map HTKeyValue.value

section Free

variable {heap : IndexHeap}

theorem forM_pure {σ α : Type} : ∀ xs : List α,
    (xs.forM fun _ => (pure ⟨⟩ : Run σ PUnit)) = pure ⟨⟩
  | [] => rfl
  | _ :: xs => forM_pure xs

theorem miListFree_returns {list : LinkedList UInt64} (h : list.WF) (heap : IndexHeap) :
    (miListFree list).Returns heap ⟨⟩ { heap with lists := heap.lists ++ [list] } := by
  rw [miListFree, freeLinkedListWith_spec _ h, forM_pure, Run.pure_bind]
  rfl

/-- The posting lists of a word are freed in turn. -/
theorem miListFree_forM : ∀ {lists : List (LinkedList UInt64)} (heap : IndexHeap),
    (∀ list ∈ lists, list.WF) →
      (lists.forM miListFree).Returns heap ⟨⟩ { heap with lists := heap.lists ++ lists }
  | [], heap, _ => by
    rw [List.append_nil]
    rfl
  | list :: lists, heap, h => by
    obtain ⟨hlist, hlists⟩ := List.forall_mem_cons.mp h
    have ih := miListFree_forM { heap with lists := heap.lists ++ [list] } hlists
    rw [List.append_assoc, List.singleton_append] at ih
    exact (miListFree_returns hlist heap).bind ih

/-- The posting lists of a `WordDocSet` are lists. -/
def WordDocSet.Freeable (set : WordDocSet) : Prop :=
  set.docIDs.WF ∧ ∀ list ∈ set.lists, list.WF

/-- A `WordDocSet` is freed with all that belongs to it. -/
theorem miFree_returns {a : Addr} {set : WordDocSet} (hread : heap.sets.read a = some set)
    (h : set.Freeable) : (miFree a).Returns heap ⟨⟩
      ⟨heap.sets.free a, heap.words ++ [set.word], heap.lists ++ set.lists⟩ := by
  have hfree := miListFree_forM { heap with words := heap.words ++ [set.word] } h.2
  refine Run.Returns.bind (Run.get_apply heap) ?_
  rw [deref_some hread, Run.pure_bind, freeHashTableWith_spec miListFree h.1]
  refine Run.Returns.bind rfl (Run.Returns.bind hfree (Run.Returns.bind (Run.get_apply _) ?_))
  rw [release_some hread, Run.pure_bind]
  rfl

/-- Distinct `WordDocSet`s are freed in turn. -/
theorem miFree_forM : ∀ {addrs : List Addr} {sets : List WordDocSet} {heap : IndexHeap},
    List.Forall₂ (fun a set => heap.sets.read a = some set) addrs sets → addrs.Nodup →
      (∀ set ∈ sets, set.Freeable) → ∃ left,
        (addrs.forM miFree).Returns heap ⟨⟩ ⟨left, heap.words ++ sets.map WordDocSet.word,
          heap.lists ++ sets.flatMap WordDocSet.lists⟩ ∧
        ∀ a, left.read a = if a ∈ addrs then none else heap.sets.read a
  | _, _, heap, .nil, _, _ => by
    refine ⟨heap.sets, ?_, fun a => (if_neg List.not_mem_nil).symm⟩
    rw [List.map_nil, List.flatMap_nil, List.append_nil, List.append_nil]
    rfl
  | a :: addrs, set :: sets, heap, .cons hread hrest, hnodup, hsets => by
    obtain ⟨ha, hnodup⟩ := List.nodup_cons.mp hnodup
    obtain ⟨hset, hsets⟩ := List.forall_mem_cons.mp hsets
    let heap₁ : IndexHeap :=
      ⟨heap.sets.free a, heap.words ++ [set.word], heap.lists ++ set.lists⟩
    have hstill : List.Forall₂ (fun b set => heap₁.sets.read b = some set) addrs sets := by
      have hothers := (List.forall₂_and_left (p := (· ∈ addrs)) _ _).mpr ⟨fun b hb => hb, hrest⟩
      refine hothers.imp fun b set hb => ?_
      have hne : b ≠ a := fun heq => ha (heq ▸ hb.1)
      exact (Arena.read_free_ne hne).trans hb.2
    obtain ⟨left, hrun, hleft⟩ := miFree_forM hstill hnodup hsets
    rw [List.append_assoc, List.append_assoc] at hrun
    refine ⟨left, (miFree_returns hread hset).bind hrun, fun b => ?_⟩
    rw [hleft]
    by_cases hb : b = a
    · subst hb
      rw [if_neg ha, if_pos List.mem_cons_self]
      exact Arena.read_free_self _ _
    · have hmem : b ∈ a :: addrs ↔ b ∈ addrs := by rw [List.mem_cons, or_iff_right hb]
      rw [if_congr hmem rfl rfl]
      exact if_congr Iff.rfl rfl (Arena.read_free_ne hb)

end Free

/-! ## FreeDocTable -/

/-- What `FreeDocTable` works on: the values of the tables that were freed. -/
structure DocHeap where
  /-- the copies of the names -/
  names : List CString
  /-- the ids -/
  docids : List UInt64

/-- `free` of the copy of a name. -/
def freeDocname (docname : CString) : Run DocHeap PUnit := do
  let heap ← Run.get
  Run.set { heap with names := heap.names ++ [docname] }

/-- `free` of an id. -/
def freeDocid (docid : UInt64) : Run DocHeap PUnit := do
  let heap ← Run.get
  Run.set { heap with docids := heap.docids ++ [docid] }

/-- `FreeDocTable`. -/
def freeDocTable (table : DocTable) : Run DocHeap PUnit := do
  freeHashTableWith freeDocname table.docidToDocname
  freeHashTableWith freeDocid table.docnameToDocid

theorem freeDocname_forM : ∀ (names : List CString) (heap : DocHeap),
    (names.forM freeDocname).Returns heap ⟨⟩ { heap with names := heap.names ++ names }
  | [], heap => by
    rw [List.append_nil]
    rfl
  | name :: names, heap => by
    have ih := freeDocname_forM names { heap with names := heap.names ++ [name] }
    rw [List.append_assoc, List.singleton_append] at ih
    exact Run.Returns.bind (m := freeDocname name) rfl ih

theorem freeDocid_forM : ∀ (docids : List UInt64) (heap : DocHeap),
    (docids.forM freeDocid).Returns heap ⟨⟩ { heap with docids := heap.docids ++ docids }
  | [], heap => by
    rw [List.append_nil]
    rfl
  | docid :: docids, heap => by
    have ih := freeDocid_forM docids { heap with docids := heap.docids ++ [docid] }
    rw [List.append_assoc, List.singleton_append] at ih
    exact Run.Returns.bind (m := freeDocid docid) rfl ih

/-- A name and an id were allocated for every document, and both are freed. -/
theorem Registered.freeDocTable_returns {dt : DocTable} {names : List CString}
    (h : Registered dt names) : ∃ freed docids,
      (freeDocTable dt).Returns ⟨[], []⟩ ⟨⟩ ⟨freed, docids⟩ ∧ freed.Perm names ∧
        docids.Perm ((List.range names.length).map docIdOf) := by
  have hnames := h.toName.map HTKeyValue.value
  have hdocids := h.toDocid.map HTKeyValue.value
  rw [docEntries, List.map_map] at hnames
  rw [nameEntries, List.map_map] at hdocids
  refine ⟨_, _, ?_, hnames.trans ?_, hdocids.trans ?_⟩
  · rw [freeDocTable, freeHashTableWith_spec freeDocname h.docs,
      freeHashTableWith_spec freeDocid h.ids]
    exact (freeDocname_forM _ _).bind (freeDocid_forM _ _)
  · exact .of_eq (List.zipIdx_map_fst 0 names)
  · rw [List.range_eq_range', ← List.zipIdx_map_snd 0 names, List.map_map]
    exact .refl _

/-! ## Strays -/

section Records

variable {β : Type} {t : RecordTable β}

/-- The table leads to every record. -/
def RecordTable.NoStray (t : RecordTable β) : Prop :=
  ∀ a, (t.records.read a).isSome = true → a ∈ t.table.entries.map HTKeyValue.value

/-- No two pairs share an address. -/
theorem RecordTable.WF.nodup_values (h : t.WF) : (t.table.entries.map HTKeyValue.value).Nodup := by
  have hdistinct : (t.table.entries.map HTKeyValue.key).Nodup := h.table.distinct
  refine List.Nodup.map_on (fun kv hkv kv' hkv' heq => ?_) (List.Nodup.of_map _ hdistinct)
  exact List.inj_on_of_nodup_map hdistinct hkv hkv' (h.apart kv hkv kv' hkv' heq)

theorem RecordTable.WF.mem_keys_iff (h : t.WF) {key : UInt64} :
    key ∈ t.keys ↔ key ∈ t.table.entries.map HTKeyValue.key := by
  rw [h.mem_keys, List.mem_map]
  constructor
  · intro hsome
    obtain ⟨b, hb⟩ := Option.isSome_iff_exists.mp hsome
    obtain ⟨a, hmem, -⟩ := h.exists_entry hb
    exact ⟨_, hmem, rfl⟩
  · rintro ⟨kv, hkv, rfl⟩
    rw [t.get?_of_mem h.table hkv]
    exact h.live kv hkv

/-- The records of the pairs. -/
theorem exists_records {m : Arena β} : ∀ {addrs : List Addr},
    (∀ a ∈ addrs, (m.read a).isSome = true) →
      ∃ bs, List.Forall₂ (fun a b => m.read a = some b) addrs bs
  | [], _ => ⟨[], .nil⟩
  | a :: addrs, h => by
    obtain ⟨ha, haddrs⟩ := List.forall_mem_cons.mp h
    obtain ⟨b, hb⟩ := Option.isSome_iff_exists.mp ha
    obtain ⟨bs, hbs⟩ := exists_records haddrs
    exact ⟨b :: bs, .cons hb hbs⟩

end Records

section Index

variable {index : MemIndex} {adds : List Posting}

/-- `FreeMemIndex` frees every `WordDocSet` that the table leads to, once. -/
theorem MemIndex.Wired.freeMemIndex_returns (h : index.Wired) : ∃ sets left,
    List.Forall₂ (fun a set => index.records.read a = some set)
        (index.table.entries.map HTKeyValue.value) sets ∧
      (freeMemIndex index).Returns ⟨index.records, [], []⟩ ⟨⟩
        ⟨left, sets.map WordDocSet.word, sets.flatMap WordDocSet.lists⟩ ∧
      ∀ a, left.read a =
        if a ∈ index.table.entries.map HTKeyValue.value then none else index.records.read a := by
  obtain ⟨sets, hsets⟩ := exists_records (m := index.records)
    (List.forall_mem_map.mpr fun kv hkv => h.records.live kv hkv)
  have hfreeable : ∀ set ∈ sets, set.Freeable := by
    intro set hset
    obtain ⟨a, ha, hread⟩ := exists_partner hsets.flip hset
    obtain ⟨kv, hkv, rfl⟩ := List.mem_map.mp ha
    have hget := (index.get?_of_mem h.records.table hkv).trans hread
    refine ⟨h.docIDs _ _ hget, List.forall_mem_map.mpr fun e he => ?_⟩
    exact (h.lists _ _ hget e he).1
  let heap : IndexHeap := ⟨index.records, [], []⟩
  have hheld : List.Forall₂ (fun a set => heap.sets.read a = some set)
    (index.table.entries.map HTKeyValue.value) sets := hsets
  obtain ⟨left, hrun, hleft⟩ := miFree_forM hheld h.records.nodup_values hfreeable
  refine ⟨sets, left, hsets, ?_, hleft⟩
  rw [freeMemIndex, freeHashTableWith_spec miFree h.records.table]
  exact hrun

/-- `findWordDocSet` files the record that it makes. -/
theorem findWordDocSet_noStray (h : index.Wired) (hstray : index.NoStray) {word : CString}
    (hroom : (insert (wordKey word) index.keys).card < 2 ^ 32) {index' : MemIndex} {a : Addr}
    (hrun : Yields (findWordDocSet index word) (some (index', a))) : index'.NoStray := by
  rcases h.records.find (wordKey word) with ⟨a₀, set₀, hfind, -, -, -⟩ | ⟨hfind, hmiss, hget⟩
  · have hfound : Yields (findWordDocSet index word) (some (index, a₀)) := hfind.bind rfl
    obtain ⟨heq, -⟩ := hrun.unique hfound
    obtain ⟨rfl, rfl⟩ := Prod.mk.inj (Option.some.inj heq)
    exact hstray
  · have habsent : wordKey word ∉ index.keys := by
      rw [h.records.mem_keys, hget]
      exact Bool.false_ne_true
    rw [Finset.card_insert_of_notMem habsent, h.records.card_keys] at hroom
    obtain ⟨table, hins, -, hperm⟩ := insertHashTable_fresh h.records.table hroom
      (show ∀ e ∈ index.table.entries,
        e.key ≠ (⟨wordKey word, index.records.fresh⟩ : HTKeyValue Addr).key from hmiss)
    obtain ⟨p, s₁, hlookup, hrun⟩ := Run.bind_eq_ok hrun
    obtain ⟨rfl, rfl⟩ := Run.Returns.unique hlookup hfind
    obtain ⟨made, s₂, hmalloc, hrun⟩ := Run.bind_eq_ok hrun
    obtain ⟨rfl, rfl⟩ := Run.Returns.unique hmalloc malloc_returns
    obtain ⟨docIDs, s₃, hdocs, hrun⟩ := Run.bind_eq_ok hrun
    have halloc : Yields (allocateHashTable 64) (some (HashTable.fresh (LinkedList UInt64) 64)) :=
      allocateHashTable_yields (by decide)
    obtain ⟨rfl, rfl⟩ := Run.Returns.unique hdocs halloc
    obtain ⟨inserted, s₄, hinserted, hrun⟩ := Run.bind_eq_ok hrun
    obtain ⟨rfl, rfl⟩ := Run.Returns.unique hinserted hins
    obtain ⟨u, s₅, -, hrun⟩ := Run.bind_eq_ok hrun
    obtain ⟨heq, -⟩ := Prod.mk.inj (Except.ok.inj hrun)
    obtain ⟨rfl, rfl⟩ := Prod.mk.inj (Option.some.inj heq)
    intro b hb
    rw [(hperm.map HTKeyValue.value).mem_iff, List.map_cons, List.mem_cons]
    by_cases hfresh : b = index.records.fresh
    · exact .inl hfresh
    · rw [Arena.read_alloc_ne _ hfresh] at hb
      exact .inr (hstray b hb)

/-- `MIAddPostingList` leaves no stray record. -/
theorem miAddPostingList_noStray (h : index.Wired) (hstray : index.NoStray) {word : CString}
    {docid : UInt64} {positions : LinkedList UInt64} {index' : MemIndex}
    (hroom : (insert (wordKey word) index.keys).card < 2 ^ 32)
    (hrun : Yields (miAddPostingList index word docid positions) (1, index')) :
    index'.NoStray := by
  obtain ⟨index₁, a, set₁, hfind, h₁, hmem, hread, -⟩ := findWordDocSet_yields h word hroom
  have hstray₁ := findWordDocSet_noStray h hstray hroom hfind
  obtain ⟨found, s₁, hfound, hrun⟩ := Run.bind_eq_ok hrun
  obtain ⟨rfl, rfl⟩ := Run.Returns.unique hfound hfind
  dsimp only at hrun
  rw [deref_some hread, Run.pure_bind] at hrun
  obtain ⟨looked, s₂, -, hrun⟩ := Run.bind_eq_ok hrun
  obtain ⟨u, s₃, -, hrun⟩ := Run.bind_eq_ok hrun
  obtain ⟨⟨res, docIDs, old⟩, s₄, -, hrun⟩ := Run.bind_eq_ok hrun
  obtain ⟨u, s₅, -, hrun⟩ := Run.bind_eq_ok hrun
  rw [store_some _ hread, Run.pure_bind] at hrun
  obtain ⟨heq, -⟩ := Prod.mk.inj (Except.ok.inj hrun)
  obtain ⟨-, rfl⟩ := Prod.mk.inj heq
  intro b hb
  by_cases hb' : b = a
  · rw [hb']
    exact List.mem_map_of_mem hmem
  · rw [Arena.read_write_ne _ hb'] at hb
    exact hstray₁ b hb

/-! ## What an index holds -/

/-- The `WordDocSet`s that the table leads to are filed under their words. -/
theorem MemIndex.Wired.keys_records (h : index.Wired) {sets : List WordDocSet}
    (hsets : List.Forall₂ (fun a set => index.records.read a = some set)
      (index.table.entries.map HTKeyValue.value) sets) :
    sets.map (fun set => wordKey set.word) = index.table.entries.map HTKeyValue.key := by
  rw [List.forall₂_map_left_iff] at hsets
  have hboth := (List.forall₂_and_left (p := (· ∈ index.table.entries)) _ _).mpr
    ⟨fun kv hkv => hkv, hsets⟩
  have hkeys : List.Forall₂ (fun kv set => kv.key = wordKey set.word) index.table.entries sets :=
    hboth.imp fun kv set hkv =>
      h.key _ _ ((index.get?_of_mem h.records.table hkv.1).trans hkv.2)
  rw [← List.forall₂_eq_eq_eq, List.forall₂_map_left_iff, List.forall₂_map_right_iff]
  exact hkeys.flip.imp fun set kv hkey => hkey.symm

theorem MemIndex.Wired.mem_records (h : index.Wired) {sets : List WordDocSet}
    (hsets : List.Forall₂ (fun a set => index.records.read a = some set)
      (index.table.entries.map HTKeyValue.value) sets) {set : WordDocSet} :
    set ∈ sets ↔ index.get? (wordKey set.word) = some set := by
  constructor
  · intro hset
    obtain ⟨a, ha, hread⟩ := exists_partner hsets.flip hset
    obtain ⟨kv, hkv, rfl⟩ := List.mem_map.mp ha
    have hget := (index.get?_of_mem h.records.table hkv).trans hread
    rwa [← h.key _ _ hget]
  · intro hget
    obtain ⟨a, hmem, hread⟩ := h.records.exists_entry hget
    obtain ⟨set', hset', hread'⟩ := exists_partner hsets (List.mem_map_of_mem hmem)
    have hsame := Option.some.inj (hread.symm.trans hread')
    rwa [hsame]

/-- The posting lists that the table leads to are those of the collection. -/
theorem Inverted.lists_perm (h : Inverted index adds) (hd : DistinctPostings adds)
    {sets : List WordDocSet}
    (hsets : List.Forall₂ (fun a set => index.records.read a = some set)
      (index.table.entries.map HTKeyValue.value) sets) :
    (sets.flatMap WordDocSet.lists).Perm (adds.map Posting.positions) := by
  let filed : List (UInt64 × UInt64 × LinkedList UInt64) := sets.flatMap fun set =>
    set.docIDs.entries.map fun e => (wordKey set.word, e.key, e.value)
  let posted : List (UInt64 × UInt64 × LinkedList UInt64) :=
    adds.map fun p => (wordKey p.word, p.docid, p.positions)
  have hwired := h.wf.toWired
  have hmem : ∀ set, set ∈ sets ↔ index.get? (wordKey set.word) = some set :=
    fun set => hwired.mem_records hsets
  have hfiled : filed.Nodup := by
    refine List.nodup_flatMap.mpr ⟨fun set hset => ?_, ?_⟩
    · have hdistinct := (hwired.docIDs _ _ ((hmem set).mp hset)).distinct
      refine List.Nodup.of_map (fun e => e.2.1) ?_
      rwa [List.map_map]
    · have hkeys : (sets.map fun set => wordKey set.word).Nodup := by
        rw [hwired.keys_records hsets]
        exact hwired.records.table.distinct
      refine (List.pairwise_map.mp hkeys).imp fun {set set'} hne => ?_
      rintro e he he'
      obtain ⟨kv, -, rfl⟩ := List.mem_map.mp he
      obtain ⟨kv', -, heq⟩ := List.mem_map.mp he'
      exact hne (congrArg Prod.fst heq).symm
  have hposted : posted.Nodup := by
    refine List.Nodup.of_map (fun e => (e.1, e.2.1)) ?_
    rwa [List.map_map]
  have hperm : filed.Perm posted := by
    refine (List.perm_ext_iff_of_nodup hfiled hposted).mpr fun ⟨key, docid, list⟩ => ?_
    have hpost : (key, docid, list) ∈ posted ↔ (index.postings key).lookup docid = some list := by
      rw [h.filed, List.mem_map]
      simp only [Prod.mk.injEq]
    rw [hpost, List.mem_flatMap]
    constructor
    · rintro ⟨set, hset, hmapped⟩
      obtain ⟨e, he, heq⟩ := List.mem_map.mp hmapped
      obtain ⟨rfl, rfl, rfl⟩ : wordKey set.word = key ∧ e.key = docid ∧ e.value = list := by
        simpa using heq
      have hget := (hmem set).mp hset
      rw [MemIndex.postings_of_some hget]
      exact lookup_asFinmap_of_mem (hwired.docIDs _ _ hget).distinct he
    · intro hlookup
      rcases hget : index.get? key with _ | set
      · rw [MemIndex.postings_of_none hget] at hlookup
        cases hlookup
      · rw [MemIndex.postings_of_some hget] at hlookup
        obtain rfl := hwired.key _ _ hget
        exact ⟨set, (hmem set).mpr hget, List.mem_map.mpr ⟨⟨docid, list⟩,
          (lookup_asFinmap_iff (hwired.docIDs _ _ hget).distinct).mp hlookup, rfl⟩⟩
  have hlists : filed.map (fun e => e.2.2) = sets.flatMap WordDocSet.lists := by
    rw [List.map_flatMap]
    exact List.flatMap_congr fun set _ => List.map_map
  have hpositions : posted.map (fun e => e.2.2) = adds.map Posting.positions := List.map_map
  rw [← hlists, ← hpositions]
  exact hperm.map _

/-- A posting that is added leaves no stray record. -/
theorem Inverted.add_noStray {p : Posting} (h : Inverted index adds) (hstray : index.NoStray)
    (hp : Postable (adds ++ [p])) :
    ∃ index', Yields (miAddPostingList index p.word p.docid p.positions) (1, index') ∧
      Inverted index' (adds ++ [p]) ∧ index'.NoStray := by
  obtain ⟨index', hrun, h'⟩ := h.add hp
  have hkeys : insert (wordKey p.word) index.keys =
      ((adds ++ [p]).map fun p => wordKey p.word).toFinset := by
    ext key
    simp [h.words]
  have hroom := hp.words
  rw [← hkeys] at hroom
  exact ⟨index', hrun, h', miAddPostingList_noStray h.wf.toWired hstray hroom hrun⟩

/-- A sequence of postings leaves none. -/
theorem addPostings_noStray : ∀ (ps : List Posting) {index : MemIndex} {done : List Posting},
    Inverted index done → index.NoStray → Postable (done ++ ps) →
      ∃ index', Yields (addPostings ps index) index' ∧ Inverted index' (done ++ ps) ∧
        index'.NoStray
  | [], index, done, h, hstray, _ => by
    rw [List.append_nil]
    exact ⟨index, rfl, h, hstray⟩
  | p :: ps, index, done, h, hstray, hp => by
    rw [List.append_cons] at hp ⊢
    obtain ⟨index₁, hadd, h₁, hstray₁⟩ := h.add_noStray hstray hp.left
    obtain ⟨index', hrun, h'⟩ := addPostings_noStray ps h₁ hstray₁ hp
    exact ⟨index', hadd.bind hrun, h'⟩

end Index

/-- Whatever postings an index was built of, `FreeMemIndex` leaves no `WordDocSet` behind, and
frees every posting list that `MIAddPostingList` was handed once, and one word for every hash. -/
theorem index_given_back (adds : List Posting) (hp : Postable adds) :
    ∃ index left words lists, Yields (buildIndex adds) index ∧
      (freeMemIndex index).Returns ⟨index.records, [], []⟩ ⟨⟩ ⟨left, words, lists⟩ ∧
      (∀ a, left.read a = none) ∧ lists.Perm (adds.map Posting.positions) ∧
      (words.map wordKey).Perm (adds.map fun p => wordKey p.word).dedup ∧
      ∀ word ∈ words, ∃ p ∈ adds, p.word = word := by
  obtain ⟨index₀, halloc, hwf, hempty, hkeys⟩ := allocateMemIndex_yields
  have hstray₀ : index₀.NoStray := by
    have hfresh : Yields allocateMemIndex ⟨HashTable.fresh Addr 128, Arena.empty⟩ :=
      Run.Returns.bind (allocateHashTable_yields (V := Addr) (by decide)) rfl
    obtain ⟨rfl, -⟩ := halloc.unique hfresh
    intro a ha
    cases ha
  obtain ⟨index, hrun, h, hstray⟩ :=
    addPostings_noStray adds (inverted_nil hwf hempty hkeys) hstray₀ hp
  rw [List.nil_append] at h
  have hwired := h.wf.toWired
  obtain ⟨sets, left, hsets, hfree, hleft⟩ := hwired.freeMemIndex_returns
  have hwords :
      (sets.map WordDocSet.word).map wordKey = index.table.entries.map HTKeyValue.key := by
    rw [List.map_map]
    exact hwired.keys_records hsets
  refine ⟨index, left, sets.map WordDocSet.word, sets.flatMap WordDocSet.lists, halloc.bind hrun,
    hfree, fun a => ?_, h.lists_perm hp.distinct hsets, ?_, fun word hword => ?_⟩
  · rw [hleft]
    split
    · rfl
    · rename_i ha
      exact Option.not_isSome_iff_eq_none.mp fun hlive => ha (hstray a hlive)
  · rw [hwords]
    refine (List.perm_ext_iff_of_nodup hwired.records.table.distinct (List.nodup_dedup _)).mpr
      fun key => ?_
    rw [← hwired.records.mem_keys_iff, h.words, List.mem_toFinset, List.mem_dedup]
  · obtain ⟨set, hset, rfl⟩ := List.mem_map.mp hword
    exact h.stored _ _ ((hwired.mem_records hsets).mp hset)

/-- An index of two words in two documents. -/
theorem index_given_back_small : ∃ index left words lists,
    Yields (buildIndex [startPosting wordA 1, startPosting wordB 1, startPosting wordA 2]) index ∧
      (freeMemIndex index).Returns ⟨index.records, [], []⟩ ⟨⟩ ⟨left, words, lists⟩ ∧
      (∀ a, left.read a = none) ∧ lists = [onePosition, onePosition, onePosition] := by
  have hp : Postable [startPosting wordA 1, startPosting wordB 1, startPosting wordA 2] := by
    refine ⟨?_, ?_, fun key => Nat.lt_of_le_of_lt (List.length_filter_le _ _) (by decide)⟩
    · unfold DistinctPostings
      decide +kernel
    · exact Nat.lt_of_le_of_lt (List.toFinset_card_le _) (by decide)
  obtain ⟨index, left, words, lists, hrun, hfree, hleft, hlists, -⟩ := index_given_back _ hp
  have hthree : lists.Perm (List.replicate 3 onePosition) := hlists
  exact ⟨index, left, words, lists, hrun, hfree, hleft, List.perm_replicate.mp hthree⟩

end MultithreadedWebServer
