import MultithreadedWebServer.IndexImage

/-!
# Which failures the index writer notices

The writer makes its calls of `fseek` and `fwrite` in an order that is given by the shape
of the two tables, and it looks at the results of most of them. Here the verdicts of the
calls are handed out to that shape, without a file: a table is a list of chains, and an
`Audit` of an element says what becomes of the verdicts of its calls. It is `none` when a
failure is noticed. Otherwise a `Tally` says what has been missed.

The calls that nobody looks at are the two for the header of a nested table or of the index
table, and the ones that write positions. A missed header leaves an empty region; a missed
position leaves the last bytes of its region unwritten.
-/

namespace MultithreadedWebServer

/-- What is known of a region of the file when its writer has returned. -/
structure Tally where
  /-- the size that the writer returned -/
  size : ℕ
  /-- the number of failures that were not noticed -/
  missed : ℕ
  /-- the bytes at the end of the region that were not written -/
  short : ℕ
  deriving DecidableEq

/-- Two regions, one behind the other. -/
def Tally.andThen (t u : Tally) : Tally :=
  ⟨t.size + u.size, t.missed + u.missed, if u.size = 0 then t.short else u.short⟩

/-- What becomes of some verdicts: a tally with those that are left. -/
abbrev Audit : Type := List Bool → Option (Tally × List Bool)

/-! ## Tables -/

section Table

variable {E : Type}

/-- Elements one after the other: two calls for the position of each. -/
def auditElements (audit : E → Audit) : List E → Audit
  | [], verdicts => some (⟨0, 0, 0⟩, verdicts)
  | e :: es, verdicts =>
    if served 2 verdicts then
      (audit e (verdicts.drop 2)).bind fun (t, verdicts) =>
        (auditElements audit es verdicts).map fun (u, verdicts) => (t.andThen u, verdicts)
    else
      none

/-- A bucket, with the positions of its elements. -/
def auditBucket (audit : E → Audit) (chain : List E) : Audit := fun verdicts =>
  (auditElements audit chain verdicts).map fun (t, verdicts) =>
    (⟨4 * chain.length + t.size, t.missed, t.short⟩, verdicts)

/-- The buckets: two calls for the record of each. -/
def auditBuckets (audit : E → Audit) : List (List E) → Audit
  | [], verdicts => some (⟨0, 0, 0⟩, verdicts)
  | chain :: chains, verdicts =>
    if served 2 verdicts then
      (auditBucket audit chain (verdicts.drop 2)).bind fun (t, verdicts) =>
        (auditBuckets audit chains verdicts).map fun (u, verdicts) => (t.andThen u, verdicts)
    else
      none

/-- The verdicts that are left when a call of `fseek` or the `fwrite` behind it fails. -/
def afterFailedPair (verdicts : List Bool) : List Bool :=
  if verdict verdicts then verdicts.drop 2 else verdicts.drop 1

/-- A table: when its header is not written it has the size 0. -/
def auditTable (audit : E → Audit) (chains : List (List E)) : Audit := fun verdicts =>
  if served 2 verdicts then
    (auditBuckets audit chains (verdicts.drop 2)).map fun (t, verdicts) =>
      (⟨4 + (8 * chains.length + t.size), t.missed, t.short⟩, verdicts)
  else
    some (⟨0, 1, 0⟩, afterFailedPair verdicts)

end Table

/-! ## Elements -/

/-- A header and the bytes behind it: three calls. -/
def auditHeaded : Audit := fun verdicts =>
  if served 3 verdicts then some (⟨0, 0, 0⟩, verdicts.drop 3) else none

/-- A document and its name. -/
def auditDocName (kv : HTKeyValue CString) : Audit := fun verdicts =>
  (auditHeaded verdicts).map fun (t, verdicts) =>
    (⟨10 + kv.value.bytes.length, t.missed, 0⟩, verdicts)

/-- A posting list: two calls for its header, and one for each position. -/
def auditPostings (kv : HTKeyValue (LinkedList UInt64)) : Audit := fun verdicts =>
  let n := kv.value.toList.length
  if served 2 verdicts then
    let missed := ((verdicts.drop 2).take n).count false
    some (⟨12 + 4 * n, missed, 4 * missed⟩, verdicts.drop (2 + n))
  else
    none

/-- A word: the table of its documents, then a header and the word. -/
def auditWord (records : Arena WordDocSet) (kv : HTKeyValue Addr) : Audit := fun verdicts =>
  match records.read kv.value with
  | none => none
  | some wds =>
    (auditTable auditPostings wds.docIDs.chains verdicts).bind fun (t, verdicts) =>
      (auditHeaded verdicts).map fun (u, verdicts) =>
        (⟨6 + wds.word.bytes.length + t.size, t.missed + u.missed, t.short⟩, verdicts)

/-! ## The file -/

/-- How many failures go unnoticed, if none is noticed: a document table of size 0 is, and
so are bytes that are missing at the end of the file. -/
def unnoticed (mi : MemIndex) (dt : DocTable) (verdicts : List Bool) : Option ℕ :=
  (auditTable auditDocName (dtGetDocidTable dt).chains verdicts).bind fun (t, verdicts) =>
    if t.size = 0 then none
    else
      (auditTable (auditWord mi.records) mi.table.chains verdicts).bind fun (u, verdicts) =>
        if (t.andThen u).short = 0 ∧ served 3 verdicts then some (t.andThen u).missed else none

/-! ## Sizes -/

section Table

variable {E : Type} (size : E → ℕ)

/-- The size of some elements. -/
def elementsSize (es : List E) : ℕ := (es.map size).sum

/-- The size of a bucket. -/
def bucketSize (chain : List E) : ℕ := 4 * chain.length + elementsSize size chain

/-- The size of some buckets. -/
def bucketsSize (chains : List (List E)) : ℕ := (chains.map (bucketSize size)).sum

/-- The size of a table. -/
def tableSize (chains : List (List E)) : ℕ := 4 + (8 * chains.length + bucketsSize size chains)

variable {size} {elem : ℕ → E → List UInt8}

theorem elementsSize_cons (e : E) (es : List E) :
    elementsSize size (e :: es) = size e + elementsSize size es := by
  rw [elementsSize, List.map_cons, List.sum_cons]
  rfl

theorem bucketsSize_cons (chain : List E) (chains : List (List E)) :
    bucketsSize size (chain :: chains) = bucketSize size chain + bucketsSize size chains := by
  rw [bucketsSize, List.map_cons, List.sum_cons]
  rfl

theorem length_elementsImage_eq : ∀ {es : List E},
    (∀ e ∈ es, ∀ p, (elem p e).length = size e) → ∀ p,
    (elementsImage elem p es).length = elementsSize size es
  | [], _, _ => rfl
  | e :: es, h, p => by
    rw [elementsImage, List.length_append, h e List.mem_cons_self, elementsSize_cons,
      length_elementsImage_eq fun e' he' => h e' (List.mem_cons_of_mem _ he')]

theorem length_bucketsImage_eq : ∀ {chains : List (List E)},
    (∀ chain ∈ chains, ∀ e ∈ chain, ∀ p, (elem p e).length = size e) → ∀ p,
    (bucketsImage elem p chains).length = bucketsSize size chains
  | [], _, _ => rfl
  | chain :: chains, h, p => by
    rw [bucketsImage, List.length_append, length_bucketImage, bucketsSize_cons,
      length_elementsImage_eq (h chain List.mem_cons_self),
      length_bucketsImage_eq fun c hc => h c (List.mem_cons_of_mem _ hc)]
    rfl

/-- The size of a table does not depend on where it stands, when that is so for its
elements. -/
theorem length_tableImage_eq {chains : List (List E)}
    (h : ∀ chain ∈ chains, ∀ e ∈ chain, ∀ p, (elem p e).length = size e) (p : ℕ) :
    (tableImage elem p chains).length = tableSize size chains := by
  rw [length_tableImage, length_bucketsImage_eq h]
  rfl

end Table

/-- The size of a document and its name. -/
def docNameSize (kv : HTKeyValue CString) : ℕ := 10 + kv.value.bytes.length

/-- The size of a posting list. -/
def postingsSize (kv : HTKeyValue (LinkedList UInt64)) : ℕ := 12 + 4 * kv.value.toList.length

/-- The size of a word with its documents. -/
def wordSize (records : Arena WordDocSet) (kv : HTKeyValue Addr) : ℕ :=
  match records.read kv.value with
  | some wds => 6 + wds.word.bytes.length + tableSize postingsSize wds.docIDs.chains
  | none => 0

theorem length_docNameElem (p : ℕ) (kv : HTKeyValue CString) :
    (docNameElem p kv).length = docNameSize kv := by
  rw [docNameElem, List.length_append, length_onDisk]
  rfl

theorem length_postingElem (p : ℕ) (kv : HTKeyValue (LinkedList UInt64)) :
    (postingElem p kv).length = postingsSize kv := by
  rw [postingElem, List.length_append, length_onDisk, length_flatMap_onDisk, List.length_map]
  rfl

theorem length_wordElem (records : Arena WordDocSet) (p : ℕ) (kv : HTKeyValue Addr) :
    (wordElem records p kv).length = wordSize records kv := by
  rw [wordElem, wordSize]
  rcases records.read kv.value with _ | wds
  · rfl
  · dsimp only
    rw [wordDocSetImage, List.length_append, List.length_append, length_onDisk,
      length_tableImage_eq fun _ _ e _ q => length_postingElem q e, ← Nat.add_assoc]
    rfl

theorem length_docTableImage (dt : DocTable) :
    (docTableImage dt).length = tableSize docNameSize (dtGetDocidTable dt).chains :=
  length_tableImage_eq (fun _ _ e _ p => length_docNameElem p e) 16

theorem length_indexTableImage (mi : MemIndex) (dt : DocTable) :
    (indexTableImage mi dt).length = tableSize (wordSize mi.records) mi.table.chains :=
  length_tableImage_eq (fun _ _ e _ p => length_wordElem mi.records p e) _

end MultithreadedWebServer
