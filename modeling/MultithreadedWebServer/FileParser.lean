import Mathlib.Data.List.TakeWhile
import MultithreadedWebServer.MemIndex

/-!
# fileparser.c: from the bytes of a file to a table of words

`ReadFile` is modelled against what the operating system may answer: the `stat` result,
whether `open` works, and the outcomes of the `read` calls in turn.

`LoopAndInsert` works in place on the buffer `ReadFile` returned, NUL terminator
included: it lower-cases letters and overwrites the character after a word with NUL, so
that `AddToHashTable` finds a C string at `wordstart`. The loop carries the buffer and
its three variables explicitly.
-/

namespace MultithreadedWebServer

/-! ## Characters and C strings -/

/-- `isalpha` in the C locale. -/
def isAlpha (c : UInt8) : Bool := (65 ≤ c && c ≤ 90) || (97 ≤ c && c ≤ 122)

/-- `tolower` in the C locale. -/
def toLower (c : UInt8) : UInt8 := if 65 ≤ c ∧ c ≤ 90 then c + 32 else c

/-- The C string at the start of a buffer. -/
def CString.ofBytes (bytes : List UInt8) : CString where
  bytes := bytes.takeWhile fun c => c ≠ 0
  noNul := fun h => by simpa using List.mem_takeWhile_imp h

/-- The C string at an offset; running off the buffer is undefined. -/
def cStringAt {σ : Type} (content : List UInt8) (p : ℕ) : Run σ CString :=
  if 0 ∈ content.drop p then pure (CString.ofBytes (content.drop p)) else Run.stop .fault

/-- `content[p]`. -/
def charAt {σ : Type} (content : List UInt8) (p : ℕ) : Run σ UInt8 :=
  match content[p]? with
  | some c => pure c
  | none => Run.stop .fault

/-! ## ReadFile -/

/-- How a `read` call ends. -/
inductive ReadOutcome : Type where
  /-- some bytes; none at all is the end of the file -/
  | bytes (bs : List UInt8)
  /-- -1 with `EINTR` or `EAGAIN` -/
  | retry
  /-- -1 with any other error -/
  | fatal
  deriving DecidableEq

/-- The bytes that a sequence of `read` outcomes delivers. -/
def delivered : List ReadOutcome → List UInt8
  | [] => []
  | .bytes bs :: outcomes => bs ++ delivered outcomes
  | _ :: outcomes => delivered outcomes

/-- What the operating system says about a file. -/
structure FileSource where
  /-- `stat` works -/
  stats : Bool
  /-- it is a regular file -/
  regular : Bool
  /-- `st_size` -/
  size : ℕ
  /-- `open` works -/
  opens : Bool
  /-- the outcomes of the `read` calls in turn; after the last one the file is at its end -/
  reads : List ReadOutcome
  deriving DecidableEq

/-- The read loop of `ReadFile`: what was read, or `none` after a fatal error. -/
def readLoop : List ReadOutcome → ℕ → List UInt8 → Option (List UInt8)
  | [], _, buf => some buf
  | outcome :: outcomes, leftToRead, buf =>
    if leftToRead = 0 then
      some buf
    else
      match outcome with
      | .fatal => none
      | .retry => readLoop outcomes leftToRead buf
      | .bytes bs =>
        -- `read` delivers at most what was asked for
        let bs := bs.take leftToRead
        if bs = [] then some buf
        else readLoop outcomes (leftToRead - bs.length) (buf ++ bs)

/-- `ReadFile`: the buffer, terminated where `*size` says, and `*size`. -/
def readFile (file : FileSource) : Run Schedule (Option (List UInt8 × ℕ)) := do
  if !file.stats || !file.regular || !file.opens then
    return none
  else if ← malloc then
    match readLoop file.reads file.size [] with
    | none => return none
    | some buf =>
      -- `HWSize_t` drops the high bits
      let size := u32 buf.length
      return some ((buf ++ [0]).set size 0, size)
  else
    return none

/-! ## The table of words -/

/-- `WordPositions`. -/
structure WordPositions where
  /-- the word -/
  word : CString
  /-- the offsets it occurs at -/
  positions : LinkedList UInt64
  deriving DecidableEq

/-- The table `BuildWordHT` returns: from the hash of a word to its `WordPositions`. -/
abbrev WordHT : Type := RecordTable WordPositions

/-- `AddToHashTable`; the position is a `DocPositionOffset_t`. -/
def addToHashTable (tab : WordHT) (word : CString) (pos : ℕ) : Run Schedule WordHT := do
  let hashKey := wordKey word
  let payload := UInt64.ofNat (u32 pos)
  let (retval, kv) ← lookupHashTable tab.table hashKey
  if retval = 1 then
    let a ← foundValue kv
    let wp ← deref tab.records (some a)
    let (retval, positions) ← appendLinkedList wp.positions payload
    Run.verify333 retval
    let records ← store tab.records (some a) fun wp => { wp with positions := positions }
    return { tab with records := records }
  else if retval = -1 then
    Run.stop .exitFailure
  else if ← malloc then
    if ← malloc then
      match ← allocateLinkedList with
      | none => Run.stop .verify333
      | some positions =>
        let (retval, positions) ← appendLinkedList positions payload
        Run.verify333 retval
        let a := tab.records.fresh
        let records := tab.records.alloc ⟨word, positions⟩
        let (retval, table, _) ← insertHashTable tab.table ⟨hashKey, a⟩
        if retval = 0 then
          Run.stop .exitFailure
        else
          return ⟨table, records⟩
    else
      Run.stop .exitFailure
  else
    Run.stop .exitFailure

/-- The loop of `LoopAndInsert`. -/
def scanLoop : ℕ → WordHT → List UInt8 → ℕ → ℕ → Bool → Run Schedule WordHT
  | 0, _, _, _, _, _ => Run.stop .diverges
  | fuel + 1, tab, content, curptr, wordstart, parsing => do
    let c ← charAt content curptr
    if c = 0 then
      return tab
    else if parsing ∧ ¬ isAlpha c then
      -- the boundary becomes the end of the word
      let content := content.set curptr 0
      let word ← cStringAt content wordstart
      let tab ← addToHashTable tab word wordstart
      scanLoop fuel tab content (curptr + 1) wordstart false
    else if isAlpha c then
      let wordstart := if parsing then wordstart else curptr
      scanLoop fuel tab (content.set curptr (toLower c)) (curptr + 1) wordstart true
    else
      scanLoop fuel tab content (curptr + 1) wordstart parsing

/-- `LoopAndInsert`. -/
def loopAndInsert (tab : WordHT) (content : List UInt8) : Run Schedule WordHT := do
  let c ← charAt content 0
  scanLoop (content.length + 1) tab content 0 0 (isAlpha c)

/-- `BuildWordHT`. -/
def buildWordHT (file : FileSource) : Run Schedule (Option WordHT) := do
  match ← readFile file with
  | none => return none
  | some (filecontent, filelen) =>
    if filelen = 0 then
      return none
    else if (filecontent.take filelen).any fun c => c = 0 || 0x7F < c then
      return none
    else
      match ← allocateHashTable 64 with
      | none => Run.stop .verify333
      | some table =>
        let tab ← loopAndInsert ⟨table, Arena.empty⟩ filecontent
        if numElementsInHashTable tab.table = 0 then
          freeHashTable tab.table
          return none
        else
          return some tab

end MultithreadedWebServer
