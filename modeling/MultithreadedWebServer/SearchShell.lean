import MultithreadedWebServer.ByteStrings
import MultithreadedWebServer.DelimitedTokens
import MultithreadedWebServer.DocTable
import MultithreadedWebServer.FileParser

/-!
# searchshell.c: queries from the standard input

A line of the standard input is cut into words by two passes of `strtok_r`: one over a copy
of the line, which counts them, and one over the line itself, which stores them in an array
with that many entries. An entry that nothing was stored in is `none`; what is read from it
is undefined.

`MIProcessQuery` is modelled on lists of words elsewhere. Here it reads the array, entry by
entry as it comes to them.
-/

namespace MultithreadedWebServer

/-! ## Lines -/

/-- The characters `fgets` stores: at most so many, none after a newline. -/
def takeLine : ℕ → List UInt8 → List UInt8 × List UInt8
  | 0, stdin => ([], stdin)
  | _, [] => ([], [])
  | n + 1, c :: stdin =>
    if c = 10 then ([c], stdin) else ((c :: (takeLine n stdin).1), (takeLine n stdin).2)

/-- `fgets(s, size, stdin)`: what is stored in front of the NUL, and what is left; `none` is
the end of the file. -/
def fgets (size : ℕ) (stdin : List UInt8) : Option (List UInt8 × List UInt8) :=
  if stdin = [] then none else some (takeLine (size - 1) stdin)

/-- `sizeof(usr_input)`. -/
def usrInputSize : ℕ := 256

/-- `strtok_r(rest, " ", &rest)`. -/
def strtokR (rest : List UInt8) : Option (List UInt8 × List UInt8) :=
  nextToken (fun c => c = 32) rest

/-! ## The array -/

/-- `query`: an entry is the word stored there, if any. -/
abbrev QueryArray : Type := List (Option CString)

/-- `query[i]` is read. -/
def readEntry {σ : Type} (query : QueryArray) (i : ℕ) : Run σ CString :=
  match query[i]? with
  | some (some word) => pure word
  | _ => Run.stop .fault

/-- `query[i] = word`. -/
def storeEntry {σ : Type} (query : QueryArray) (i : ℕ) (word : CString) : Run σ QueryArray :=
  if i < query.length then pure (query.set i (some word)) else Run.stop .fault

/-- The first pass: `num_split_query`. -/
def countTokens : ℕ → List UInt8 → ℕ → Run Schedule ℕ
  | 0, _, _ => Run.stop .diverges
  | fuel + 1, rest, numSplitQuery =>
    match strtokR rest with
    | none => return numSplitQuery
    | some (_, rest) => countTokens fuel rest (numSplitQuery + 1)

/-- The second pass. -/
def storeTokens : ℕ → List UInt8 → ℕ → QueryArray → Run Schedule QueryArray
  | 0, _, _, _ => Run.stop .diverges
  | fuel + 1, rest, i, query =>
    match strtokR rest with
    | none => return query
    | some (token, rest) => do
      Run.verify333 (← malloc)
      let query ← storeEntry query i (CString.ofBytes token)
      storeTokens fuel rest (i + 1) query

/-- From the line that `fgets` stored to `num_split_query` and `query`. -/
def splitQuery (line : List UInt8) : Run Schedule (ℕ × QueryArray) := do
  let usrInput := (CString.ofBytes line).bytes
  let numSplitQuery ← countTokens (usrInput.length + 1) usrInput 0
  Run.verify333 (← malloc)
  let query := List.replicate numSplitQuery none
  if usrInput = [] then
    -- `usr_input[strlen(usr_input)-1]` is not in the buffer
    Run.stop .fault
  else
    let query ← storeTokens (usrInput.length + 1) usrInput.dropLast 0 query
    return (numSplitQuery, query)

/-- The loop that frees the words. -/
def freeWords (query : QueryArray) : ℕ → ℕ → Run Schedule PUnit
  | 0, _ => pure ⟨⟩
  | left + 1, i => do
    let _ ← readEntry query i
    freeWords query left (i + 1)

/-! ## MIProcessQuery -/

/-- What `MIProcessQuery` does with `query[0]`; `none` is a return of `NULL`. -/
def firstWordResults (index : MemIndex) (word : CString) (retlist : LinkedList SearchResult) :
    Run Schedule (Option (LinkedList SearchResult)) := do
  let (res, kv) ← lookupHashTable index.table (wordKey word)
  Run.verify333 (res ≠ -1)
  if res = 0 then
    freeLinkedList retlist
    return none
  else
    let wds ← foundValue kv
    let set ← deref index.records (some wds)
    Run.verify333 (0 < numElementsInHashTable set.docIDs)
    match ← hashTableMakeIterator set.docIDs with
    | none => Run.stop .verify333
    | some docIDsIter =>
      collectResults set.docIDs (set.docIDs.numElements + 1) docIDsIter retlist

/-- What it does with a further word. -/
def intersectWord (index : MemIndex) (word : CString) (retlist : LinkedList SearchResult) :
    Run Schedule (Option (LinkedList SearchResult)) := do
  let (res, kv) ← lookupHashTable index.table (wordKey word)
  Run.verify333 (res ≠ -1)
  if res = 0 then
    freeLinkedList retlist
    return none
  else
    match ← llMakeIterator retlist 0 with
    | none => Run.stop .verify333
    | some llit =>
      let ne := toInt (numElementsInLinkedList retlist)
      let wds ← foundValue kv
      let retlist ← filterResults index.records wds ne.toNat llit retlist
      if numElementsInLinkedList retlist = 0 then
        freeLinkedList retlist
        return none
      else
        return some retlist

/-- The loop over `query[i]` up to the last word, and the final sort. -/
def intersectEntries (index : MemIndex) (query : QueryArray) :
    ℕ → ℕ → LinkedList SearchResult → Run Schedule (Option (LinkedList SearchResult))
  | 0, _, retlist => do
    let retlist ← sortLinkedList retlist false miSearchListComparator
    return some retlist
  | left + 1, i, retlist => do
    let word ← readEntry query i
    match ← intersectWord index word retlist with
    | none => return none
    | some retlist => intersectEntries index query left (i + 1) retlist

/-- `MIProcessQuery`, on the array. -/
def miProcessQueryArray (index : MemIndex) (query : QueryArray) (qlen : ℕ) :
    Run Schedule (Option (LinkedList SearchResult)) :=
  match qlen with
  | 0 => pure none
  | qlen + 1 => do
    match ← allocateLinkedList with
    | none => Run.stop .verify333
    | some retlist =>
      let word ← readEntry query 0
      match ← firstWordResults index word retlist with
      | none => return none
      | some retlist => intersectEntries index query qlen 1 retlist

/-! ## The shell -/

/-- The loop of `PrintLinkedList`; `printf` of a `NULL` name is undefined. -/
def printResults (ll : LinkedList SearchResult) (doctable : DocTable) :
    ℕ → LLIter → Run Schedule CppString
  | 0, _ => Run.stop .diverges
  | fuel + 1, llIt => do
    let sr ← llIteratorGetPayload ll llIt
    match ← dtLookupDocID doctable sr.docid with
    | none => Run.stop .fault
    | some docname =>
      let line := ascii "  " ++ docname.bytes ++ ascii " (" ++ decimal sr.rank ++ ascii ")\n"
      let (more, llIt) ← llIteratorNext ll llIt
      if more then
        let rest ← printResults ll doctable fuel llIt
        return line ++ rest
      else
        return line

/-- `PrintLinkedList`: what it prints. -/
def printLinkedList (ll : LinkedList SearchResult) (doctable : DocTable) :
    Run Schedule CppString := do
  match ← llMakeIterator ll 0 with
  | none => Run.stop .verify333
  | some llIt => printResults ll doctable (ll.numElements + 1) llIt

/-- What the loop of `main` does with a line, and what it prints. -/
def processLine (index : MemIndex) (doctable : DocTable) (line : List UInt8) :
    Run Schedule CppString := do
  let (numSplitQuery, query) ← splitQuery line
  -- the length is converted to `uint8_t`
  let llres ← miProcessQueryArray index query (numSplitQuery % 2 ^ 8)
  match llres with
  | none =>
    freeWords query numSplitQuery 0
    return []
  | some llres =>
    let printed ← printLinkedList llres doctable
    freeLinkedList llres
    freeWords query numSplitQuery 0
    return printed

/-- The loop of `main`, up to the end of the standard input: what it prints. -/
def shellLoop (index : MemIndex) (doctable : DocTable) : ℕ → List UInt8 → Run Schedule CppString
  | 0, _ => Run.stop .diverges
  | fuel + 1, stdin =>
    match fgets usrInputSize stdin with
    | none => return ascii "enter query:\n"
    | some (line, stdin) => do
      let printed ← processLine index doctable line
      let rest ← shellLoop index doctable fuel stdin
      return ascii "enter query:\n" ++ printed ++ rest

end MultithreadedWebServer
