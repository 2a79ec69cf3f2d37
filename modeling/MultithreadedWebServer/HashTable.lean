import MultithreadedWebServer.ListRefine

/-!
# HashTable.c: the chained hash table and its iterator

The table record of `HashTable_priv.h`: an array of chains, each a `LinkedList` of
key/value pairs. `void *` values are values of an arbitrary type `V`; a client that
stores a pointer instantiates `V` with an address.

`InsertHashTable` and `ResizeHashtable` call each other. Here `resizeHashtable` takes
the insertion it calls as an argument and `insertNested depth` may nest `depth` calls,
after which it reports `diverges`; how deep the nesting goes is a theorem about the
tables (`Rehash.lean`), not part of the definition.

A return code together with an output parameter becomes a code with an `Option`:
the parameter is `none` when the C code does not write it.
-/

namespace MultithreadedWebServer

/-- `HTKeyValue`. -/
structure HTKeyValue (V : Type) where
  /-- the key in the key/value pair -/
  key : UInt64
  /-- the value in the key/value pair -/
  value : V
  deriving DecidableEq

/-- `HashTableRecord`. -/
structure HashTable (V : Type) where
  /-- number of buckets in this table -/
  numBuckets : ℕ
  /-- number of elements currently in this table -/
  numElements : ℕ
  /-- the array of buckets -/
  buckets : List (LinkedList (HTKeyValue V))
  deriving DecidableEq

/-- `HTIterRecord`; `bucketNum` is only meaningful while the iterator is valid. -/
structure HTIter where
  /-- is this iterator valid? -/
  isValid : Bool
  /-- which bucket are we in? -/
  bucketNum : ℕ
  /-- iterator for the bucket, or `NULL` -/
  bucketIt : Option LLIter
  deriving DecidableEq

section Operations

variable {σ : Type} {V : Type}

/-- The loop of `AllocateHashTable` over the buckets. A failure frees the chains made
so far; they are empty, so there is nothing to model about that. -/
def allocateChains : ℕ → Run Schedule (Option (List (LinkedList (HTKeyValue V))))
  | 0 => pure (some [])
  | n + 1 => do
    match ← allocateLinkedList with
    | none => return none
    | some chain =>
      match ← allocateChains n with
      | none => return none
      | some chains => return some (chain :: chains)

/-- `AllocateHashTable`. -/
def allocateHashTable (numBuckets : ℕ) : Run Schedule (Option (HashTable V)) := do
  if numBuckets = 0 then
    return none
  else if ← malloc then
    if ← malloc then
      match ← allocateChains numBuckets with
      | none => return none
      | some chains => return some ⟨numBuckets, 0, chains⟩
    else
      return none
  else
    return none

/-- The inner loop of `FreeHashTable`: pop elements off a chain. -/
def drainChain : ℕ → LinkedList (HTKeyValue V) → Run σ (LinkedList (HTKeyValue V))
  | 0, _ => Run.stop .diverges
  | fuel + 1, chain => do
    if 0 < numElementsInLinkedList chain then
      let (nextKV, chain) ← popLinkedList chain
      Run.verify333 nextKV.isSome
      drainChain fuel chain
    else
      return chain

/-- The outer loop of `FreeHashTable`. -/
def freeChains : List (LinkedList (HTKeyValue V)) → Run σ PUnit
  | [] => pure ⟨⟩
  | chain :: chains => do
    let chain ← drainChain (chain.numElements + 1) chain
    freeLinkedList chain
    freeChains chains

/-- `FreeHashTable`. The function that frees the values is the caller's business. -/
def freeHashTable (table : HashTable V) : Run σ PUnit := freeChains table.buckets

/-- `NumElementsInHashTable`. -/
def numElementsInHashTable (table : HashTable V) : ℕ := table.numElements

/-- `HashKeyToBucketNum`; `%` by zero is undefined. -/
def hashKeyToBucketNum (ht : HashTable V) (key : UInt64) : Run σ ℕ :=
  if ht.numBuckets = 0 then Run.stop .fault else pure (key.toNat % ht.numBuckets)

/-- `table->buckets[i]`. -/
def bucketAt (table : HashTable V) (i : ℕ) : Run σ (LinkedList (HTKeyValue V)) :=
  match table.buckets[i]? with
  | some chain => pure chain
  | none => Run.stop .fault

/-- The table after its `i`-th chain was changed in place. -/
def HashTable.setBucket (table : HashTable V) (i : ℕ) (chain : LinkedList (HTKeyValue V)) :
    HashTable V :=
  { table with buckets := table.buckets.set i chain }

/-- The loop of `ChainContainsKey`. -/
def chainLoop (chain : LinkedList (HTKeyValue V)) (newkey : UInt64) :
    ℕ → LLIter → Run σ (Bool × LLIter × HTKeyValue V)
  | 0, _ => Run.stop .diverges
  | fuel + 1, iter => do
    let oldkeyvalue ← llIteratorGetPayload chain iter
    if oldkeyvalue.key = newkey then
      return (true, iter, oldkeyvalue)
    else
      let (more, iter) ← llIteratorNext chain iter
      if more then chainLoop chain newkey fuel iter
      else return (false, iter, oldkeyvalue)

/-- `ChainContainsKey`: the iterator ends on the pair, if the key is there. -/
def chainContainsKey (chain : LinkedList (HTKeyValue V)) (iter : LLIter) (newkey : UInt64) :
    Run σ (Bool × LLIter × HTKeyValue V) :=
  chainLoop chain newkey chain.nodes.fresh iter

/-- `InsertHashTable` after its call of `ResizeHashtable`. -/
def insertIntoChain (table : HashTable V) (newkeyvalue : HTKeyValue V) :
    Run Schedule (ℕ × HashTable V × Option (HTKeyValue V)) := do
  let insertbucket ← hashKeyToBucketNum table newkeyvalue.key
  let insertchain ← bucketAt table insertbucket
  if ← malloc then
    if numElementsInLinkedList insertchain = 0 then
      let (pushed, insertchain) ← pushLinkedList insertchain newkeyvalue
      if pushed then
        return (1, { table.setBucket insertbucket insertchain with
          numElements := u32 (table.numElements + 1) }, none)
      else
        return (0, table, none)
    else
      match ← llMakeIterator insertchain 0 with
      | none => return (0, table, none)
      | some chainIterator =>
        let (found, chainIterator, oldPair) ←
          chainContainsKey insertchain chainIterator newkeyvalue.key
        if found then
          let (_, insertchain, _) ← llIteratorDelete insertchain chainIterator
          -- the source does not look at the result of this push
          let (_, insertchain) ← pushLinkedList insertchain newkeyvalue
          return (2, table.setBucket insertbucket insertchain, some oldPair)
        else
          let (pushed, insertchain) ← pushLinkedList insertchain newkeyvalue
          if pushed then
            return (1, { table.setBucket insertbucket insertchain with
              numElements := u32 (table.numElements + 1) }, none)
          else
            return (0, table, none)
  else
    return (0, table, none)

/-- `LookupHashTable`: -1 on a failed allocation, 0 when absent, 1 with the pair. -/
def lookupHashTable (table : HashTable V) (key : UInt64) :
    Run Schedule (ℤ × Option (HTKeyValue V)) := do
  let bucketToCheck ← hashKeyToBucketNum table key
  let checkChain ← bucketAt table bucketToCheck
  if numElementsInLinkedList checkChain = 0 then
    return (0, none)
  else
    match ← llMakeIterator checkChain 0 with
    | none => return (-1, none)
    | some chainIterator =>
      let (found, _, curKeyValue) ← chainContainsKey checkChain chainIterator key
      if found then return (1, some curKeyValue) else return (0, none)

/-- `RemoveFromHashTable`. -/
def removeFromHashTable (table : HashTable V) (key : UInt64) :
    Run Schedule (ℤ × HashTable V × Option (HTKeyValue V)) := do
  let bucketToCheck ← hashKeyToBucketNum table key
  let checkChain ← bucketAt table bucketToCheck
  if numElementsInLinkedList checkChain = 0 then
    return (0, table, none)
  else
    match ← llMakeIterator checkChain 0 with
    | none => return (-1, table, none)
    | some chainIterator =>
      let (found, chainIterator, keyvalueToReturn) ←
        chainContainsKey checkChain chainIterator key
      if found then
        let (_, checkChain, _) ← llIteratorDelete checkChain chainIterator
        return (1, { table.setBucket bucketToCheck checkChain with
          numElements := u32Sub table.numElements 1 }, some keyvalueToReturn)
      else
        return (0, table, none)

/-! ## The iterator -/

/-- `HashTableMakeIterator`. -/
def hashTableMakeIterator (table : HashTable V) : Run Schedule (Option HTIter) := do
  if ← malloc then
    if table.numElements = 0 then
      return some ⟨false, 0, none⟩
    else
      match table.buckets.findIdx? fun chain => 0 < numElementsInLinkedList chain with
      | none => Run.stop .verify333
      | some i =>
        let chain ← bucketAt table i
        match ← llMakeIterator chain 0 with
        | none => return none
        | some bucketIt => return some ⟨true, i, some bucketIt⟩
  else
    return none

/-- The `do ... while` of `FindNextNonEmptyBucket`; returns the bucket number it
stopped at and that bucket. -/
def findNextNonEmptyBucket (ht : HashTable V) :
    ℕ → ℕ → Run σ (ℕ × LinkedList (HTKeyValue V))
  | 0, _ => Run.stop .diverges
  | fuel + 1, bucketNum => do
    let bucketNum := u32 (bucketNum + 1)
    let bucketToReturn ← bucketAt ht bucketNum
    if numElementsInLinkedList bucketToReturn = 0 ∧ bucketNum < u32Sub ht.numBuckets 1 then
      findNextNonEmptyBucket ht fuel bucketNum
    else
      return (bucketNum, bucketToReturn)

/-- The bucket iterator of a valid table iterator; `NULL` is a failed `Verify333`. -/
def HTIter.bucketIter (iter : HTIter) : Run σ LLIter :=
  match iter.bucketIt with
  | some it => pure it
  | none => Run.stop .verify333

/-- `HTIteratorNext`. -/
def htIteratorNext (ht : HashTable V) (iter : HTIter) : Run Schedule (ℕ × HTIter) := do
  if iter.isValid then
    -- `bucket_it->list` is bucket `bucket_num`
    let bucketIt ← iter.bucketIter
    let chain ← bucketAt ht iter.bucketNum
    let (more, bucketIt) ← llIteratorNext chain bucketIt
    if more then
      return (1, { iter with bucketIt := some bucketIt })
    else if iter.bucketNum = u32Sub ht.numBuckets 1 then
      return (0, { iter with isValid := false })
    else
      let (bucketNum, nextNonEmptyBucket) ←
        findNextNonEmptyBucket ht ht.numBuckets iter.bucketNum
      if 0 < numElementsInLinkedList nextNonEmptyBucket then
        match ← llMakeIterator nextNonEmptyBucket 0 with
        | none => return (0, { iter with isValid := false, bucketNum := bucketNum })
        | some newBucketIt => return (1, ⟨true, bucketNum, some newBucketIt⟩)
      else
        return (0, { iter with isValid := false, bucketNum := bucketNum })
  else
    return (0, iter)

/-- `HTIteratorPastEnd`. -/
def htIteratorPastEnd (ht : HashTable V) (iter : HTIter) : Bool :=
  !iter.isValid || numElementsInHashTable ht = 0

/-- `HTIteratorGet`; `none` is the result 0. -/
def htIteratorGet (ht : HashTable V) (iter : HTIter) : Run σ (Option (HTKeyValue V)) := do
  if !iter.isValid || ht.numElements = 0 then
    return none
  else
    let bucketIt ← iter.bucketIter
    let chain ← bucketAt ht iter.bucketNum
    let keyvalueToReturn ← llIteratorGetPayload chain bucketIt
    return some keyvalueToReturn

/-- `HTIteratorDelete`: advance the iterator, then remove the pair it stood on. -/
def htIteratorDelete [DecidableEq V] (ht : HashTable V) (iter : HTIter) :
    Run Schedule (ℕ × HashTable V × HTIter × Option (HTKeyValue V)) := do
  match ← htIteratorGet ht iter with
  | none => return (0, ht, iter, none)
  | some kv =>
    let (res, iter) ← htIteratorNext ht iter
    let retval := if res = 0 then 2 else 1
    let (res, ht, keyvalue) ← removeFromHashTable ht kv.key
    Run.verify333 (res = 1)
    Run.verify333 (keyvalue.map HTKeyValue.key = some kv.key)
    Run.verify333 (keyvalue.map HTKeyValue.value = some kv.value)
    return (retval, ht, iter, keyvalue)

/-! ## Growing -/

/-- What `ResizeHashtable` calls to fill the new table. -/
abbrev Insertion (V : Type) : Type :=
  HashTable V → HTKeyValue V → Run Schedule (ℕ × HashTable V × Option (HTKeyValue V))

/-- The `while` loop of `ResizeHashtable`: insert what the iterator yields into the new
table; `false` when an insertion did not return 1. -/
def rehash (insert : Insertion V) (ht : HashTable V) :
    ℕ → HTIter → HashTable V → Run Schedule (Bool × HashTable V)
  | 0, _, _ => Run.stop .diverges
  | fuel + 1, it, newht => do
    if htIteratorPastEnd ht it then
      return (true, newht)
    else
      match ← htIteratorGet ht it with
      | none => Run.stop .verify333
      | some item =>
        let (res, newht, _) ← insert newht item
        if res = 1 then
          let (_, it) ← htIteratorNext ht it
          rehash insert ht fuel it newht
        else
          return (false, newht)

/-- `ResizeHashtable`, with the insertion it uses for the new table. -/
def resizeHashtable (insert : Insertion V) (ht : HashTable V) : Run Schedule (HashTable V) := do
  if ht.numElements < u32 (3 * ht.numBuckets) then
    return ht
  else
    match ← allocateHashTable (u32 (ht.numBuckets * 9)) with
    | none => return ht
    | some newht =>
      match ← hashTableMakeIterator ht with
      | none =>
        freeHashTable newht
        return ht
      | some it =>
        let (worked, newht) ← rehash insert ht (ht.numElements + 1) it newht
        if worked then
          -- the records are swapped and the old one is freed
          freeHashTable ht
          return newht
        else
          freeHashTable newht
          return ht

/-- `InsertHashTable`, with at most `depth` calls nested in one another. -/
def insertNested : ℕ → Insertion V
  | 0 => fun _ _ => Run.stop .diverges
  | depth + 1 => fun table newkeyvalue => do
    let table ← resizeHashtable (insertNested depth) table
    insertIntoChain table newkeyvalue

/-- `InsertHashTable`. A nested call works on a table with fewer elements, so the
nesting stays below this bound. -/
def insertHashTable (table : HashTable V) (newkeyvalue : HTKeyValue V) :
    Run Schedule (ℕ × HashTable V × Option (HTKeyValue V)) :=
  insertNested (table.numElements + 2) table newkeyvalue

end Operations

/-! ## Hashing -/

/-- The loop of `FNVHash64` over the octets of the buffer. -/
def fnvFold (hval : UInt64) (buffer : List UInt8) : UInt64 :=
  buffer.foldl (fun hval octet => (hval ^^^ octet.toUInt64) * 0x100000001b3) hval

/-- `FNVHash64(buffer, len)`. -/
def fnvHash64 (buffer : List UInt8) (len : ℕ) : UInt64 :=
  fnvFold 0xcbf29ce484222325 (buffer.take len)

end MultithreadedWebServer
