import MultithreadedWebServer.IndexReader

/-!
# QueryProcessor.cc: queries over index files

A `QueryProcessor` holds a pair of readers for each of its files. Every reader keeps a
file descriptor open, so the number of files is taken for what it is. `std::sort` is a
parameter: what it does with results of the same rank is its own business.
-/

namespace MultithreadedWebServer

/-- `QueryProcessor::QueryResult`. -/
structure QueryResult where
  /-- the name of the document -/
  documentName : CppString
  /-- its rank, an `HWSize_t` -/
  rank : ℕ
  deriving DecidableEq

/-- `operator<` of `QueryResult`. -/
def QueryResult.less (lhs rhs : QueryResult) : Bool := rhs.rank < lhs.rank

/-- `QueryProcessor`: the arrays of `DocTableReader`s and `IndexTableReader`s. -/
abbrev QueryProcessor : Type := List (HashTableReader × HashTableReader)

/-- The loop of the constructor over the contents of the files. -/
def openIndices (validate : Bool) : List (List UInt8) → Except Stop QueryProcessor
  | [] => return []
  | file :: indexlist => do
    let fir ← newFileIndexReader file validate
    let dtr ← getDocTableReader fir
    let itr ← getIndexTableReader fir
    let rest ← openIndices validate indexlist
    return (dtr, itr) :: rest

/-- The constructor of `QueryProcessor`. -/
def newQueryProcessor (indexlist : List (List UInt8)) (validate : Bool) :
    Except Stop QueryProcessor :=
  if indexlist = [] then throw .verify333 else openIndices validate indexlist

/-- `CombineDocIDList`. -/
def combineDocIDList (retList partialList : List DocidElementHeader) : List DocidElementHeader :=
  partialList.flatMap fun partialListIt =>
    (retList.filter fun retListIt => retListIt.docid = partialListIt.docid).map fun retListIt =>
      ⟨retListIt.docid, retListIt.numPositions + partialListIt.numPositions⟩

/-- `AddQueryResult`: what it adds to the final result. -/
def addQueryResult (dtr : HashTableReader) :
    List DocidElementHeader → Except Stop (List QueryResult)
  | [] => return []
  | header :: finalDocidList => do
    let fileName ← docTableLookupDocID dtr header.docid
    let finalresult ← addQueryResult dtr finalDocidList
    match fileName with
    | none => return finalresult
    | some fileName => return ⟨fileName, header.numPositions.toNat⟩ :: finalresult

/-- The loop of `ProcessQuery` over the second query word and what follows. -/
def intersectDocIDs (itr : HashTableReader) :
    List CppString → List DocidElementHeader → Except Stop (List DocidElementHeader)
  | [], finalDocidList => return finalDocidList
  | word :: words, finalDocidList => do
    match ← lookupWord itr word with
    | none => return []
    | some docidTableReader =>
      let curWordDocidList ← getDocIDList docidTableReader
      intersectDocIDs itr words (combineDocIDList finalDocidList curWordDocidList)

/-- What `ProcessQuery` adds to the final result for one index. -/
def processIndex (dtr itr : HashTableReader) (word : CppString) (words : List CppString) :
    Except Stop (List QueryResult) := do
  match ← lookupWord itr word with
  | none => return []
  | some docidTableReader =>
    let finalDocidList ← getDocIDList docidTableReader
    if words = [] then
      addQueryResult dtr finalDocidList
    else
      let finalDocidList ← intersectDocIDs itr words finalDocidList
      if finalDocidList.length ≠ 0 then addQueryResult dtr finalDocidList else return []

/-- The loop of `ProcessQuery` over the indices. -/
def processIndices (word : CppString) (words : List CppString) :
    QueryProcessor → Except Stop (List QueryResult)
  | [] => return []
  | (dtr, itr) :: indices => do
    let results ← processIndex dtr itr word words
    let finalresult ← processIndices word words indices
    return results ++ finalresult

/-- `ProcessQuery`. -/
def processQuery (sort : List QueryResult → List QueryResult) (qp : QueryProcessor) :
    List CppString → Except Stop (List QueryResult)
  | [] => throw .verify333
  | word :: words => do
    let finalresult ← processIndices word words qp
    return sort finalresult

end MultithreadedWebServer
