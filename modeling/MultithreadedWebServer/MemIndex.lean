import MultithreadedWebServer.RecordTable

/-!
# memindex.c: the in-memory inverted index

A `MemIndex` is a hash table from the hash of a word to a pointer to a `WordDocSet`,
which holds the word and a second hash table from document to posting list. Here it is
a `RecordTable`; the posting lists are stored in the inner tables themselves, as the
index owns them.

`MIProcessQuery` is split where the source has a loop: `collectResults` fills the
result list from the first word, `filterResults` is the loop over the result list for
one further word, `intersectWords` the loop over the further words.
-/

namespace MultithreadedWebServer

/-- A NUL-terminated string, without the terminator. -/
@[ext] structure CString where
  /-- the characters -/
  bytes : List UInt8
  /-- none of them ends the string -/
  noNul : (0 : UInt8) ∉ bytes
  deriving DecidableEq

/-- `FNVHash64(word, strlen(word))`; `strlen` is converted to `HWSize_t` on the way. -/
def wordKey (word : CString) : UInt64 := fnvHash64 word.bytes (u32 word.bytes.length)

/-- `WordDocSet`. -/
structure WordDocSet where
  /-- the word -/
  word : CString
  /-- from document to the positions of the word in it -/
  docIDs : HashTable (LinkedList UInt64)
  deriving DecidableEq

/-- `MemIndex`: from the hash of a word to its `WordDocSet`. -/
abbrev MemIndex : Type := RecordTable WordDocSet

/-- `SearchResult`. -/
structure SearchResult where
  /-- a document that matches a search query -/
  docid : UInt64
  /-- an indicator of the quality of the match -/
  rank : ℕ
  deriving DecidableEq

/-- `MISearchListComparator`. -/
def miSearchListComparator (sr1 sr2 : SearchResult) : ℤ :=
  if sr1.rank > sr2.rank then 1
  else if sr1.rank < sr2.rank then -1
  else 0

/-- `AllocateMemIndex`. -/
def allocateMemIndex : Run Schedule MemIndex := do
  match ← allocateHashTable 128 with
  | none => Run.stop .verify333
  | some mi => return ⟨mi, Arena.empty⟩

/-- `MINumWordsInMemIndex`. -/
def miNumWordsInMemIndex (index : MemIndex) : ℕ := numElementsInHashTable index.table

/-- The value a successful lookup wrote; reading it after a failed one is undefined. -/
def foundValue {σ V : Type} (kv : Option (HTKeyValue V)) : Run σ V :=
  match kv with
  | some kv => pure kv.value
  | none => Run.stop .fault

/-- The first half of `MIAddPostingList`: find the `WordDocSet` of the word or make
one; `none` is the failed `malloc`. -/
def findWordDocSet (index : MemIndex) (word : CString) :
    Run Schedule (Option (MemIndex × Addr)) := do
  let (res, kv) ← lookupHashTable index.table (wordKey word)
  if res = 0 then
    if ← malloc then
      match ← allocateHashTable 64 with
      | none => Run.stop .verify333
      | some docIDs =>
        let wds := index.records.fresh
        let sets := index.records.alloc ⟨word, docIDs⟩
        let (res, table, _) ← insertHashTable index.table ⟨wordKey word, wds⟩
        Run.verify333 (res = 1)
        return some (⟨table, sets⟩, wds)
    else
      return none
  else
    let wds ← foundValue kv
    return some (index, wds)

/-- `MIAddPostingList`. -/
def miAddPostingList (index : MemIndex) (word : CString) (docid : UInt64)
    (positions : LinkedList UInt64) : Run Schedule (ℕ × MemIndex) := do
  match ← findWordDocSet index word with
  | none => return (0, index)
  | some (index, wds) =>
    let set ← deref index.records (some wds)
    -- the docID must not exist in the WordDocSet yet
    let (res, _) ← lookupHashTable set.docIDs docid
    Run.verify333 (res = 0)
    let (res, docIDs, _) ← insertHashTable set.docIDs ⟨docid, positions⟩
    Run.verify333 (res ≠ 0)
    let sets ← store index.records (some wds) fun set => { set with docIDs := docIDs }
    return (1, { index with records := sets })

/-! ## Queries -/

/-- The loop of `MIProcessQuery` over the documents of the first word; `none` is the
failed `malloc`. -/
def collectResults (docIDs : HashTable (LinkedList UInt64)) :
    ℕ → HTIter → LinkedList SearchResult → Run Schedule (Option (LinkedList SearchResult))
  | 0, _, _ => Run.stop .diverges
  | fuel + 1, docIDsIter, retlist => do
    if htIteratorPastEnd docIDs docIDsIter then
      return some retlist
    else if ← malloc then
      match ← htIteratorGet docIDs docIDsIter with
      | none => Run.stop .verify333
      | some kv =>
        let (res, retlist) ←
          appendLinkedList retlist ⟨kv.key, numElementsInLinkedList kv.value⟩
        Run.verify333 res
        let (_, docIDsIter) ← htIteratorNext docIDs docIDsIter
        collectResults docIDs fuel docIDsIter retlist
    else
      freeLinkedList retlist
      return none

/-- The `for (j = 0; j < ne; j++)` loop of `MIProcessQuery`, with the number of
iterations that are left. -/
def filterResults (sets : Arena WordDocSet) (wds : Addr) :
    ℕ → LLIter → LinkedList SearchResult → Run Schedule (LinkedList SearchResult)
  | 0, _, retlist => pure retlist
  | left + 1, llit, retlist => do
    let sr ← llIteratorGetPayload retlist llit
    let set ← deref sets (some wds)
    let (res, kv) ← lookupHashTable set.docIDs sr.docid
    Run.verify333 (res ≠ -1)
    if res = 0 then
      let (_, retlist, llit) ← llIteratorDelete retlist llit
      filterResults sets wds left llit retlist
    else
      let list ← foundValue kv
      let num := numElementsInLinkedList list
      let retlist ← llSetPayload retlist llit { sr with rank := u32 (sr.rank + num) }
      let (_, llit) ← llIteratorNext retlist llit
      filterResults sets wds left llit retlist

/-- The loop of `MIProcessQuery` over `query[1]` and what follows, and the final sort. -/
def intersectWords (index : MemIndex) :
    List CString → LinkedList SearchResult → Run Schedule (Option (LinkedList SearchResult))
  | [], retlist => do
    let retlist ← sortLinkedList retlist false miSearchListComparator
    return some retlist
  | word :: words, retlist => do
    let (res, kv) ← lookupHashTable index.table (wordKey word)
    Run.verify333 (res ≠ -1)
    if res = 0 then
      freeLinkedList retlist
      return none
    else
      match ← llMakeIterator retlist 0 with
      | none => Run.stop .verify333
      | some llit =>
        -- `ne` is an `int`
        let ne := toInt (numElementsInLinkedList retlist)
        let wds ← foundValue kv
        let retlist ← filterResults index.records wds ne.toNat llit retlist
        if numElementsInLinkedList retlist = 0 then
          freeLinkedList retlist
          return none
        else
          intersectWords index words retlist

/-- `MIProcessQuery`; the list is `query[0]` up to `query[qlen - 1]`. -/
def miProcessQuery (index : MemIndex) (query : List CString) :
    Run Schedule (Option (LinkedList SearchResult)) :=
  match query with
  | [] => pure none
  | word :: words => do
    match ← allocateLinkedList with
    | none => Run.stop .verify333
    | some retlist =>
      let (res, kv) ← lookupHashTable index.table (wordKey word)
      Run.verify333 (res ≠ -1)
      if res = 0 then
        freeLinkedList retlist
        return none
      else
        let wds ← foundValue kv
        let set ← deref index.records (some wds)
        Run.verify333 (0 < numElementsInHashTable set.docIDs)
        match ← hashTableMakeIterator set.docIDs with
        | none => Run.stop .verify333
        | some docIDsIter =>
          match ← collectResults set.docIDs (set.docIDs.numElements + 1) docIDsIter retlist with
          | none => return none
          | some retlist =>
            -- with a single word this only sorts
            intersectWords index words retlist

end MultithreadedWebServer
