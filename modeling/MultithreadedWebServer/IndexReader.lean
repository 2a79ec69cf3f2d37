import MultithreadedWebServer.ByteStrings
import MultithreadedWebServer.FileLayout
import MultithreadedWebServer.HashTable

/-!
# The readers of an index file

`HashTableReader.cc` and its three clients, and `FileIndexReader.cc`. Every method seeks
before it reads, so nothing depends on where a stream stands: a reader holds the content
of the file, and a `fread` names the offset it reads at. The loops over `fread` advance
that offset.
-/

namespace MultithreadedWebServer

/-! ## Calls of the C library -/

/-- `fseek` and `fread` of a struct, with a check that all of it was there. -/
def freadStruct {α : Type} [DiskStruct α] (file : List UInt8) (pos : ℕ) : Except Stop α :=
  match readAt file pos (DiskStruct.size α) with
  | some bytes => .ok (ofDisk bytes)
  | none => .error .verify333

/-- The same without the check: the struct stays uninitialised. -/
def freadUnchecked {α : Type} [DiskStruct α] (file : List UInt8) (pos : ℕ) : Except Stop α :=
  match readAt file pos (DiskStruct.size α) with
  | some bytes => .ok (ofDisk bytes)
  | none => .error .fault

/-- A loop that reads structs one after the other. -/
def freadStructs {α : Type} [DiskStruct α] (file : List UInt8) : ℕ → ℕ → Except Stop (List α)
  | 0, _ => return []
  | left + 1, pos => do
    let x ← freadStruct file pos
    let xs ← freadStructs file left (pos + DiskStruct.size α)
    return x :: xs

/-- A loop that reads characters one after the other. -/
def freadChars (file : List UInt8) : ℕ → ℕ → Except Stop CppString
  | 0, _ => return []
  | left + 1, pos => do
    match file[pos]? with
    | none => throw .verify333
    | some nextc =>
      let rest ← freadChars file left (pos + 1)
      return nextc :: rest

/-! ## HashTableReader -/

/-- `HashTableReader`. -/
structure HashTableReader where
  /-- the file -/
  file : List UInt8
  /-- where the table starts -/
  offset : ℕ
  /-- its header -/
  header : BucketListHeader
  deriving DecidableEq

/-- The constructor of `HashTableReader`. -/
def newHashTableReader (file : List UInt8) (offset : ℕ) : Except Stop HashTableReader := do
  let header ← freadStruct file offset
  return ⟨file, offset, header⟩

/-- `LookupElementPositions`; `%` by zero is undefined. -/
def lookupElementPositions (r : HashTableReader) (hashKey : UInt64) :
    Except Stop (List ElementPositionRec) := do
  if r.header.numBuckets = 0 then
    throw .fault
  else
    let bucketNum := hashKey.toNat % r.header.numBuckets.toNat
    let bucketrecOffset := u32 (r.offset + 4 + 8 * bucketNum)
    let bRec : BucketRec ← freadStruct r.file bucketrecOffset
    if bRec.chainLen = 0 then
      return []
    else
      freadStructs r.file bRec.chainLen.toNat bRec.bucketPosition.toNat

/-! ## DocTableReader -/

/-- The loop of `DocTableReader::LookupDocID`. -/
def docTableLoop (file : List UInt8) (docid : UInt64) :
    List ElementPositionRec → Except Stop (Option CppString)
  | [] => return none
  | it :: elements => do
    let nextOffset := it.elementPosition.toNat
    let header : DoctableElementHeader ← freadStruct file nextOffset
    if header.docid = docid then
      return some (← freadChars file header.filenameLen.toNat (nextOffset + 10))
    else
      docTableLoop file docid elements

/-- `DocTableReader::LookupDocID`: the name, if there is one. -/
def docTableLookupDocID (r : HashTableReader) (docid : UInt64) :
    Except Stop (Option CppString) := do
  let elements ← lookupElementPositions r docid
  docTableLoop r.file docid elements

/-! ## IndexTableReader -/

/-- The loop of `LookupWord`. -/
def indexTableLoop (file : List UInt8) (word : CppString) :
    List ElementPositionRec → Except Stop (Option HashTableReader)
  | [] => return none
  | it :: elements => do
    let nextOffset := it.elementPosition.toNat
    let header : WorddocsetHeader ← freadStruct file nextOffset
    if header.wordLen.toNat ≠ word.length then
      indexTableLoop file word elements
    else
      let ss ← freadChars file header.wordLen.toNat (nextOffset + 6)
      if word = ss then
        return some (← newHashTableReader file (u32 (nextOffset + 6 + header.wordLen.toNat)))
      else
        indexTableLoop file word elements

/-- `IndexTableReader::LookupWord`: a reader for the documents of the word, if there is
one. -/
def lookupWord (r : HashTableReader) (word : CppString) :
    Except Stop (Option HashTableReader) := do
  let wordhash := fnvHash64 word (u32 word.length)
  let elements ← lookupElementPositions r wordhash
  indexTableLoop r.file word elements

/-! ## DocIDTableReader -/

/-- The loop of `DocIDTableReader::LookupDocID`. -/
def docIDTableLoop (file : List UInt8) (docid : UInt64) :
    List ElementPositionRec → Except Stop (Option (List DocidElementPosition))
  | [] => return none
  | it :: elements => do
    let nextOffset := it.elementPosition.toNat
    let header : DocidElementHeader ← freadStruct file nextOffset
    if header.docid = docid then
      return some (← freadStructs file header.numPositions.toNat (nextOffset + 12))
    else
      docIDTableLoop file docid elements

/-- `DocIDTableReader::LookupDocID`: the positions, if the document is there. -/
def docIDTableLookupDocID (r : HashTableReader) (docid : UInt64) :
    Except Stop (Option (List DocidElementPosition)) := do
  let elements ← lookupElementPositions r docid
  docIDTableLoop r.file docid elements

/-- The inner loop of `GetDocIDList`, with the number of elements that are left. -/
def docIDListBucket (file : List UInt8) (bRec : BucketRec) :
    ℕ → ℕ → Except Stop (List DocidElementHeader)
  | 0, _ => return []
  | left + 1, j => do
    let ep : ElementPositionRec ← freadStruct file (bRec.bucketPosition.toNat + j * 4)
    let docEl ← freadUnchecked file ep.elementPosition.toNat
    let docidlist ← docIDListBucket file bRec left (j + 1)
    return docEl :: docidlist

/-- The outer loop of `GetDocIDList`, with the number of buckets that are left. -/
def docIDListLoop (r : HashTableReader) : ℕ → ℕ → Except Stop (List DocidElementHeader)
  | 0, _ => return []
  | left + 1, i => do
    let bRec : BucketRec ← freadUnchecked r.file (u32 (r.offset + 4 + i * 8))
    let bucket ← docIDListBucket r.file bRec bRec.chainLen.toNat 0
    let docidlist ← docIDListLoop r left (i + 1)
    return bucket ++ docidlist

/-- `GetDocIDList`. -/
def getDocIDList (r : HashTableReader) : Except Stop (List DocidElementHeader) :=
  docIDListLoop r r.header.numBuckets.toNat 0

/-! ## FileIndexReader -/

/-- `FileIndexReader`. -/
structure FileIndexReader where
  /-- the file -/
  file : List UInt8
  /-- its header -/
  header : IndexFileHeader
  deriving DecidableEq

/-- The loop of the constructor that recomputes the checksum, 512 bytes at a time. -/
def crcLoop (file : List UInt8) : ℕ → ℕ → ℕ → UInt32 → Except Stop UInt32
  | 0, _, _, _ => throw .diverges
  | fuel + 1, pos, leftToRead, crc =>
    if leftToRead = 0 then
      return crc
    else
      let buf := (file.drop pos).take 512
      crcLoop file fuel (pos + buf.length) (u32Sub leftToRead buf.length)
        (buf.foldl foldByteIntoCRC crc)

/-- The constructor of `FileIndexReader`. -/
def newFileIndexReader (file : List UInt8) (validate : Bool) : Except Stop FileIndexReader := do
  let header : IndexFileHeader ← freadStruct file 0
  if header.magicNumber ≠ magicNumber then
    throw .verify333
  else if u32 file.length ≠ u32 (16 + header.doctableSize.toNat + header.indexSize.toNat) then
    throw .verify333
  else if validate then
    let leftToRead := u32 (header.doctableSize.toNat + header.indexSize.toNat)
    let crc ← crcLoop file (file.length + 1) 16 leftToRead crcInit
    if getFinalCRC crc ≠ header.checksum then throw .verify333 else return ⟨file, header⟩
  else
    return ⟨file, header⟩

/-- `GetDocTableReader`. -/
def getDocTableReader (fir : FileIndexReader) : Except Stop HashTableReader :=
  newHashTableReader fir.file 16

/-- `GetIndexTableReader`. -/
def getIndexTableReader (fir : FileIndexReader) : Except Stop HashTableReader :=
  newHashTableReader fir.file (u32 (16 + fir.header.doctableSize.toNat))

end MultithreadedWebServer
