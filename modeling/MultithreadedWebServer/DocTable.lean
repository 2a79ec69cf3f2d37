import MultithreadedWebServer.MemIndex

/-!
# doctable.c: the two-way table of documents

Document names are copied into the table, and the values of the second table are
pointers to document ids that nobody else changes; both are stored as values here.
-/

namespace MultithreadedWebServer

/-- `DocTableRecord`. -/
structure DocTable where
  /-- from docid to docname -/
  docidToDocname : HashTable CString
  /-- from the hash of a docname to its docid -/
  docnameToDocid : HashTable UInt64
  /-- the largest docid handed out so far -/
  maxId : UInt64
  deriving DecidableEq

/-- `AllocateDocTable`. -/
def allocateDocTable : Run Schedule DocTable := do
  Run.verify333 (← malloc)
  let docidToDocname ← allocateHashTable 1024
  let docnameToDocid ← allocateHashTable 1024
  match docidToDocname, docnameToDocid with
  | some docidToDocname, some docnameToDocid => return ⟨docidToDocname, docnameToDocid, 0⟩
  | _, _ => Run.stop .verify333

/-- `DTGetDocidTable`. -/
def dtGetDocidTable (table : DocTable) : HashTable CString := table.docidToDocname

/-- `DTNumDocsInDocTable`. -/
def dtNumDocsInDocTable (table : DocTable) : ℕ := numElementsInHashTable table.docidToDocname

/-- `DTRegisterDocumentName`. -/
def dtRegisterDocumentName (table : DocTable) (docname : CString) :
    Run Schedule (UInt64 × DocTable) := do
  let docid ← malloc
  let doccopy ← malloc
  Run.verify333 doccopy
  Run.verify333 docid
  let key := wordKey docname
  let (ret, oldkv) ← lookupHashTable table.docnameToDocid key
  if ret = 1 then
    return (← foundValue oldkv, table)
  else
    let docid := table.maxId + 1
    let (ret, docidToDocname, _) ← insertHashTable (dtGetDocidTable table) ⟨docid, docname⟩
    Run.verify333 (ret = 1)
    let (ret, docnameToDocid, _) ← insertHashTable table.docnameToDocid ⟨key, docid⟩
    Run.verify333 (ret = 1)
    return (docid, ⟨docidToDocname, docnameToDocid, docid⟩)

/-- `DTLookupDocumentName`. -/
def dtLookupDocumentName (table : DocTable) (docname : CString) : Run Schedule UInt64 := do
  let (res, kv) ← lookupHashTable table.docnameToDocid (wordKey docname)
  if res = 0 then return 0 else foundValue kv

/-- `DTLookupDocID`. -/
def dtLookupDocID (table : DocTable) (docid : UInt64) : Run Schedule (Option CString) := do
  Run.verify333 (docid ≠ 0)
  let (res, kv) ← lookupHashTable (dtGetDocidTable table) docid
  if res = 0 then return none else return some (← foundValue kv)

end MultithreadedWebServer
