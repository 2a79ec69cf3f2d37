import MultithreadedWebServer.DocTable
import MultithreadedWebServer.FileParser

/-!
# filecrawler.c: from files to the index

`HandleFile` moves the words of one file out of the table that `BuildWordHT` returns and
into the index. `crawl` is what `CrawlFileTree` does with the two tables and the regular
files that `HandleDir` comes across; the directories have a module of their own.
-/

namespace MultithreadedWebServer

/-- `FreeWordHT`, for a table that nothing is filed in. -/
def freeWordHT (tab : WordHT) : Run Schedule PUnit := freeHashTable tab.table

/-- The `while` loop of `HandleFile`. It returns the table, too. -/
def drainLoop (docID : UInt64) : ℕ → WordHT → HTIter → MemIndex → Run Schedule (WordHT × MemIndex)
  | 0, _, _, _ => Run.stop .diverges
  | fuel + 1, tab, it, index => do
    if 0 < numElementsInHashTable tab.table then
      -- the result of `HTIteratorDelete` is not looked at
      let (_, table, it, kv) ← htIteratorDelete tab.table it
      let a ← foundValue kv
      let wp ← deref tab.records (some a)
      let (res, index) ← miAddPostingList index wp.word docID wp.positions
      Run.verify333 (res = 1)
      let records ← release tab.records (some a)
      drainLoop docID fuel ⟨table, records⟩ it index
    else
      return (tab, index)

/-- `HandleFile`. -/
def handleFile (fpath : CString) (file : FileSource) (doctable : DocTable) (index : MemIndex) :
    Run Schedule (DocTable × MemIndex) := do
  match ← buildWordHT file with
  | none => return (doctable, index)
  | some tab =>
    let (docID, doctable) ← dtRegisterDocumentName doctable fpath
    match ← hashTableMakeIterator tab.table with
    | none => Run.stop .verify333
    | some it =>
      let (tab, index) ← drainLoop docID (tab.table.numElements + 1) tab it index
      freeWordHT tab
      return (doctable, index)

/-- One `HandleFile` after the other. -/
def handleFiles : List (CString × FileSource) → DocTable → MemIndex →
    Run Schedule (DocTable × MemIndex)
  | [], doctable, index => return (doctable, index)
  | (fpath, file) :: files, doctable, index => do
    let (doctable, index) ← handleFile fpath file doctable index
    handleFiles files doctable index

/-- The tables that `CrawlFileTree` makes of the files. -/
def crawl (files : List (CString × FileSource)) : Run Schedule (DocTable × MemIndex) := do
  let doctable ← allocateDocTable
  let index ← allocateMemIndex
  handleFiles files doctable index

end MultithreadedWebServer
