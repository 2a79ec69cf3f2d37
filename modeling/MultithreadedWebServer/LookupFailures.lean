import MultithreadedWebServer.IndexRoundTrip

/-!
# Lookups that run out of memory

`LookupHashTable` returns 1 and writes its output parameter, or 0 if the key is absent, or
-1 if there is no memory for an iterator over the bucket of the key. A caller has to tell
these apart (`LookupHandled`). `MIAddPostingList`, `DTLookupDocumentName` and
`DTLookupDocID` compare the result with 0 only, and take -1 for 1. The second lookup of
`MIAddPostingList` is checked.
-/

namespace MultithreadedWebServer

section Lookup

variable {V α : Type} {t : HashTable V}

/-- The buckets are there and their chains can be walked: also in a table that has lost a
pair. -/
structure HashTable.Walkable (t : HashTable V) : Prop where
  /-- every chain is a well-formed list -/
  chains : ∀ chain ∈ t.buckets, chain.WF
  /-- `num_buckets` is the size of the array -/
  size : t.numBuckets = t.buckets.length
  /-- there is a bucket -/
  pos : 0 < t.numBuckets

theorem HashTable.WF.walkable (h : t.WF) : t.Walkable := ⟨h.chains, h.size, h.pos⟩

/-- There is nothing in the bucket of the key. -/
def bucketEmpty (t : HashTable V) (key : UInt64) : Bool :=
  t.buckets[key.toNat % t.numBuckets]?.all fun chain => numElementsInLinkedList chain = 0

/-- `LookupHashTable` fails exactly if the bucket is not empty and there is no memory, and
writes its output parameter exactly if it returns 1. -/
theorem lookupHashTable_outcome (h : t.Walkable) (key : UInt64) (s : Schedule) :
    (bucketEmpty t key = true ∨ verdict s = true) ∧
        (∃ s', lookupHashTable t key s = .ok ((0, none), s') ∨
          ∃ kv, lookupHashTable t key s = .ok ((1, some kv), s')) ∨
      ¬ (bucketEmpty t key = true ∨ verdict s = true) ∧
        lookupHashTable t key s = .ok ((-1, none), s.tail) := by
  have hlt : key.toNat % t.numBuckets < t.buckets.length := h.size ▸ Nat.mod_lt _ h.pos
  have hbucket := List.getElem?_eq_getElem hlt
  have hwf := h.chains _ (List.getElem_mem hlt)
  revert hbucket hwf
  generalize t.buckets[key.toNat % t.numBuckets] = chain
  intro hbucket hwf
  have hkey : (hashKeyToBucketNum t key : Run Schedule ℕ) = pure (key.toNat % t.numBuckets) := by
    rw [hashKeyToBucketNum, if_neg (Nat.pos_iff_ne_zero.mp h.pos)]
  have hempty : bucketEmpty t key = decide (numElementsInLinkedList chain = 0) := by
    rw [bucketEmpty, hbucket]
    rfl
  rw [lookupHashTable, hkey, Run.pure_bind, bucketAt_of hbucket, Run.pure_bind, hempty]
  rcases hcells : chain.cells with _ | ⟨c, cs⟩
  · have hn : numElementsInLinkedList chain = 0 := by
      rw [numElementsInLinkedList, hwf.numElements_eq, LinkedList.toList, hcells]
      rfl
    exact .inl ⟨.inl (decide_eq_true hn), s, .inl (by rw [if_pos hn]; rfl)⟩
  · have hrepr : Repr chain (c :: cs) := hcells ▸ hwf
    have hn : numElementsInLinkedList chain ≠ 0 := by
      rw [numElementsInLinkedList, hrepr.count]
      simp
    have hiter := llMakeIterator_spec hrepr s
    rw [if_neg hn, Run.bind_ok hiter]
    cases hv : verdict s with
    | false => exact .inr ⟨by simp [hn], rfl⟩
    | true =>
      refine .inl ⟨.inr rfl, s.tail, ?_⟩
      rcases chainContainsKey_spec (σ := Schedule) hrepr key with
        ⟨pre, b, old, post, -, -, hrun⟩ | ⟨-, iter, last, hrun⟩
      · exact .inr ⟨old, by simp [hrun]⟩
      · exact .inl (by simp [hrun])

/-! ## Callers -/

/-- What a function does after a lookup does not depend on what the output parameter holds
unless the call returned 1; after -1 it stops at a `Verify333` or reports an error. -/
structure LookupHandled (look : Run Schedule (ℤ × Option (HTKeyValue V)))
    (rest : ℤ → Option (HTKeyValue V) → Run Schedule α) (reports : α → Prop)
    (mallocs : Schedule) : Prop where
  /-- the output parameter is read after 1 only -/
  unread : ∀ res kv s', look.Returns mallocs (res, kv) s' → res ≠ 1 →
    ∀ out, rest res (some out) s' = rest res kv s'
  /-- -1 is told apart -/
  failure : ∀ kv s', look.Returns mallocs (-1, kv) s' →
    rest (-1) kv s' = .error .verify333 ∨ ∃ a s'', (rest (-1) kv).Returns s' a s'' ∧ reports a

variable {key : UInt64} {rest : ℤ → Option (HTKeyValue V) → Run Schedule α}

/-- A caller that takes -1 for 1 handles a lookup exactly if it does not fail. -/
theorem lookupHandled_iff (h : t.Walkable) {reports : α → Prop}
    (hzero : ∀ kv s, rest 0 (some kv) s = rest 0 none s)
    (hfail : ∀ s, rest (-1) none s = .error .fault) (mallocs : Schedule) :
    LookupHandled (lookupHashTable t key) rest reports mallocs ↔
      (bucketEmpty t key = true ∨ verdict mallocs = true) := by
  rcases lookupHashTable_outcome h key mallocs with ⟨hfits, s', hrun⟩ | ⟨hfails, hrun⟩
  · refine ⟨fun _ => hfits, fun _ => ?_⟩
    rcases hrun with hrun | ⟨kv, hrun⟩
    · constructor
      · intro res kv s₁ hlook _ out
        obtain ⟨heq, rfl⟩ := Run.Returns.unique hlook hrun
        obtain ⟨rfl, rfl⟩ := Prod.mk.inj heq
        exact hzero out s₁
      · intro kv s₁ hlook
        obtain ⟨heq, -⟩ := Run.Returns.unique hlook hrun
        cases heq
    · constructor
      · intro res kv' s₁ hlook hne
        obtain ⟨heq, -⟩ := Run.Returns.unique hlook hrun
        exact absurd (congrArg Prod.fst heq) hne
      · intro kv' s₁ hlook
        obtain ⟨heq, -⟩ := Run.Returns.unique hlook hrun
        cases heq
  · refine ⟨fun hhandled => ?_, fun hfits => absurd hfits hfails⟩
    rcases hhandled.failure none mallocs.tail hrun with hstop | ⟨a, s'', hreturns, -⟩
    · rw [hfail] at hstop
      cases hstop
    · rw [Run.Returns, hfail] at hreturns
      cases hreturns

/-- It reads an output parameter that was not written. -/
theorem lookup_undefined (h : t.Walkable) (hfail : ∀ s, rest (-1) none s = .error .fault)
    {mallocs : Schedule} (hfails : ¬ (bucketEmpty t key = true ∨ verdict mallocs = true)) :
    (lookupHashTable t key >>= fun r => rest r.1 r.2) mallocs = .error .fault := by
  rcases lookupHashTable_outcome h key mallocs with ⟨hfits, -⟩ | ⟨-, hrun⟩
  · exact absurd hfits hfails
  · rw [Run.bind_ok hrun]
    exact hfail _

end Lookup

/-! ## MIAddPostingList -/

/-- `MIAddPostingList` after its second lookup. -/
def addAfterSecond (index : MemIndex) (wds : Addr) (set : WordDocSet) (docid : UInt64)
    (positions : LinkedList UInt64) (res : ℤ) (_hitkv : Option (HTKeyValue (LinkedList UInt64))) :
    Run Schedule (ℕ × MemIndex) := do
  Run.verify333 (res = 0)
  let (res, docIDs, _) ← insertHashTable set.docIDs ⟨docid, positions⟩
  Run.verify333 (res ≠ 0)
  let sets ← store index.records (some wds) fun set => { set with docIDs := docIDs }
  return (1, { index with records := sets })

/-- The second half of `MIAddPostingList`. -/
def addToSet (docid : UInt64) (positions : LinkedList UInt64) (index : MemIndex) (wds : Addr) :
    Run Schedule (ℕ × MemIndex) := do
  let set ← deref index.records (some wds)
  let (res, hitkv) ← lookupHashTable set.docIDs docid
  addAfterSecond index wds set docid positions res hitkv

/-- `findWordDocSet` after the lookup. -/
def findAfterLookup (index : MemIndex) (word : CString) (res : ℤ) (kv : Option (HTKeyValue Addr)) :
    Run Schedule (Option (MemIndex × Addr)) := do
  if res = 0 then
    if ← malloc then
      match ← allocateHashTable 64 with
      | none => Run.stop .verify333
      | some docIDs =>
        let wds := index.records.fresh
        let sets := index.records.alloc ⟨word, docIDs⟩
        let (res, table, _) ← insertHashTable index.table ⟨wordKey word, wds⟩
        Run.verify333 (res = 1)
        return some (⟨table, sets⟩, wds)
    else
      return none
  else
    let wds ← foundValue kv
    return some (index, wds)

/-- `MIAddPostingList` after its first lookup. -/
def addAfterFirst (index : MemIndex) (word : CString) (docid : UInt64)
    (positions : LinkedList UInt64) (res : ℤ) (kv : Option (HTKeyValue Addr)) :
    Run Schedule (ℕ × MemIndex) := do
  match ← findAfterLookup index word res kv with
  | none => return (0, index)
  | some (index, wds) => addToSet docid positions index wds

section Add

variable (index : MemIndex) (word : CString) (docid : UInt64) (positions : LinkedList UInt64)

theorem findWordDocSet_eq : findWordDocSet index word =
    lookupHashTable index.table (wordKey word) >>= fun r => findAfterLookup index word r.1 r.2 :=
  rfl

theorem miAddPostingList_eq : miAddPostingList index word docid positions =
    lookupHashTable index.table (wordKey word) >>= fun r =>
      addAfterFirst index word docid positions r.1 r.2 := by
  rw [miAddPostingList, findWordDocSet_eq, Run.bind_assoc]
  rfl

/-- Both lookups of `MIAddPostingList` are handled, the second one in every state that the
first half leaves. -/
structure AddHandled (mallocs : Schedule) : Prop where
  /-- the lookup of the word; the error result is 0, with the index as it was -/
  first : LookupHandled (lookupHashTable index.table (wordKey word))
    (addAfterFirst index word docid positions) (fun r => r = (0, index)) mallocs
  /-- the lookup of the document -/
  second : ∀ index' wds set mallocs',
    (findWordDocSet index word).Returns mallocs (some (index', wds)) mallocs' →
    index'.records.read wds = some set →
    LookupHandled (lookupHashTable set.docIDs docid)
      (addAfterSecond index' wds set docid positions) (fun r => r = (0, index)) mallocs'

/-- Any result of the second lookup but 0 stops the process. -/
theorem addAfterSecond_handled (wds : Addr) (set : WordDocSet) (reports : ℕ × MemIndex → Prop)
    (mallocs : Schedule) : LookupHandled (lookupHashTable set.docIDs docid)
      (addAfterSecond index wds set docid positions) reports mallocs where
  unread _ _ _ _ _ _ := rfl
  failure _ _ _ := .inl rfl

theorem addHandled_iff {index : MemIndex} (h : index.table.Walkable) (mallocs : Schedule) :
    AddHandled index word docid positions mallocs ↔
      (bucketEmpty index.table (wordKey word) = true ∨ verdict mallocs = true) := by
  have hfirst : LookupHandled (lookupHashTable index.table (wordKey word))
      (addAfterFirst index word docid positions) (fun r => r = (0, index)) mallocs ↔
        (bucketEmpty index.table (wordKey word) = true ∨ verdict mallocs = true) :=
    lookupHandled_iff h (fun _ _ => rfl) (fun _ => rfl) mallocs
  exact ⟨fun hadd => hfirst.mp hadd.first, fun hfits => ⟨hfirst.mpr hfits,
    fun index' wds set mallocs' _ _ => addAfterSecond_handled index' docid positions wds set _ _⟩⟩

end Add

/-! ## The lookups of the DocTable -/

/-- `DTLookupDocumentName` after the lookup. -/
def nameAfterLookup (res : ℤ) (kv : Option (HTKeyValue UInt64)) : Run Schedule UInt64 :=
  if res = 0 then return 0 else foundValue kv

/-- `DTLookupDocID` after the lookup. -/
def docIDAfterLookup (res : ℤ) (kv : Option (HTKeyValue CString)) :
    Run Schedule (Option CString) := do
  if res = 0 then return none else return some (← foundValue kv)

section DocTable

variable (table : DocTable) (docname : CString) (docid : UInt64)

theorem dtLookupDocumentName_eq : dtLookupDocumentName table docname =
    lookupHashTable table.docnameToDocid (wordKey docname) >>= fun r =>
      nameAfterLookup r.1 r.2 := rfl

theorem dtLookupDocID_eq {docid : UInt64} (h : docid ≠ 0) : dtLookupDocID table docid =
    lookupHashTable table.docidToDocname docid >>= fun r => docIDAfterLookup r.1 r.2 := by
  rw [dtLookupDocID, decide_eq_true h]
  rfl

/-- The lookup of `DTLookupDocumentName` is handled; the error result is 0. -/
def NameHandled (mallocs : Schedule) : Prop :=
  LookupHandled (lookupHashTable table.docnameToDocid (wordKey docname)) nameAfterLookup
    (fun r => r = 0) mallocs

/-- The lookup of `DTLookupDocID` is handled, if it comes to that; the error result is `NULL`. -/
def DocIDHandled (mallocs : Schedule) : Prop :=
  docid ≠ 0 → LookupHandled (lookupHashTable table.docidToDocname docid) docIDAfterLookup
    (fun r => r = none) mallocs

theorem nameHandled_iff {table : DocTable} (h : table.docnameToDocid.Walkable)
    (mallocs : Schedule) : NameHandled table docname mallocs ↔
      (bucketEmpty table.docnameToDocid (wordKey docname) = true ∨ verdict mallocs = true) :=
  lookupHandled_iff h (fun _ _ => rfl) (fun _ => rfl) mallocs

theorem docIDHandled_iff {table : DocTable} (h : table.docidToDocname.Walkable)
    (mallocs : Schedule) : DocIDHandled table docid mallocs ↔
      (docid = 0 ∨ bucketEmpty table.docidToDocname docid = true ∨ verdict mallocs = true) := by
  have hlook : LookupHandled (lookupHashTable table.docidToDocname docid) docIDAfterLookup
      (fun r => r = none) mallocs ↔
        (bucketEmpty table.docidToDocname docid = true ∨ verdict mallocs = true) :=
    lookupHandled_iff h (fun _ _ => rfl) (fun _ => rfl) mallocs
  rw [DocIDHandled, hlook]
  exact or_iff_not_imp_left.symm

end DocTable

/-! ## All three -/

/-- After a failed lookup each of the functions reads what was not written. -/
theorem failed_lookups_undefined {index : MemIndex} {table : DocTable}
    (hindex : index.table.Walkable) (hnames : table.docnameToDocid.Walkable)
    (hdocs : table.docidToDocname.Walkable) (word docname : CString) {docid : UInt64}
    (hdocid : docid ≠ 0)
    (positions : LinkedList UInt64) (mallocs : Schedule) (hv : verdict mallocs = false) :
    (bucketEmpty index.table (wordKey word) = false →
      miAddPostingList index word docid positions mallocs = .error .fault) ∧
    (bucketEmpty table.docnameToDocid (wordKey docname) = false →
      dtLookupDocumentName table docname mallocs = .error .fault) ∧
    (bucketEmpty table.docidToDocname docid = false →
      dtLookupDocID table docid mallocs = .error .fault) := by
  rw [miAddPostingList_eq, dtLookupDocumentName_eq, dtLookupDocID_eq table hdocid]
  exact ⟨fun hb => lookup_undefined hindex (fun _ => rfl) (by simp [hb, hv]),
    fun hb => lookup_undefined hnames (fun _ => rfl) (by simp [hb, hv]),
    fun hb => lookup_undefined hdocs (fun _ => rfl) (by simp [hb, hv])⟩

/-- For every pattern of allocation failures, a function handles its lookups exactly if the
first one finds an empty bucket, or memory for its iterator, or is not made. -/
theorem failed_lookups_handled_iff {index : MemIndex} {table : DocTable}
    (hindex : index.table.Walkable) (hnames : table.docnameToDocid.Walkable)
    (hdocs : table.docidToDocname.Walkable) (word docname : CString) (docid : UInt64)
    (positions : LinkedList UInt64) (mallocs : Schedule) :
    (AddHandled index word docid positions mallocs ↔
      (bucketEmpty index.table (wordKey word) = true ∨ verdict mallocs = true)) ∧
    (NameHandled table docname mallocs ↔
      (bucketEmpty table.docnameToDocid (wordKey docname) = true ∨ verdict mallocs = true)) ∧
    (DocIDHandled table docid mallocs ↔
      (docid = 0 ∨ bucketEmpty table.docidToDocname docid = true ∨ verdict mallocs = true)) :=
  ⟨addHandled_iff word docid positions hindex mallocs, nameHandled_iff docname hnames mallocs,
    docIDHandled_iff docid hdocs mallocs⟩

theorem walkable_small : smallIndex.table.Walkable ∧ smallDocTable.docnameToDocid.Walkable ∧
    smallDocTable.docidToDocname.Walkable :=
  ⟨(HashTable.wf_singleton _).walkable, (HashTable.wf_singleton _).walkable,
    (HashTable.wf_singleton _).walkable⟩

/-- With memory for the iterators, also if there is none after that. -/
theorem failed_lookups_handled_iff_memory :
    AddHandled smallIndex wordA 6 (LinkedList.singleton 3) [true, false] ∧
      NameHandled smallDocTable wordB [true] ∧ DocIDHandled smallDocTable 0 [false] := by
  obtain ⟨hindex, hnames, hdocs⟩ := walkable_small
  have hmemory := failed_lookups_handled_iff hindex hnames hdocs wordA wordB 6
    (LinkedList.singleton 3) [true, false]
  have hzero := failed_lookups_handled_iff hindex hnames hdocs wordA wordB 0
    (LinkedList.singleton 3) [false]
  exact ⟨hmemory.1.mpr (.inr rfl), (nameHandled_iff wordB hnames [true]).mpr (.inr rfl),
    hzero.2.2.mpr (.inl rfl)⟩

/-- The word, the name and the document are there, and there is no memory for an iterator. -/
theorem failed_lookups_used :
    ¬ AddHandled smallIndex wordA 6 (LinkedList.singleton 3) [false] ∧
      ¬ NameHandled smallDocTable wordB [false] ∧ ¬ DocIDHandled smallDocTable 5 [false] := by
  obtain ⟨hindex, hnames, hdocs⟩ := walkable_small
  rw [addHandled_iff _ _ _ hindex, nameHandled_iff _ hnames, docIDHandled_iff _ hdocs]
  decide

end MultithreadedWebServer
