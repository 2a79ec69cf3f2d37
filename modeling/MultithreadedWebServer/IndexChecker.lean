import MultithreadedWebServer.FileLayout
import MultithreadedWebServer.LinkedList

/-!
# hw3fsck: a checker of index files

`FileIndexChecker.cc`, `HashTableChecker.cc` with its three subclasses, and
`CheckerUtils.cc`. The checker has a description of the file format of its own. What does
not fit is printed and the checker goes on; what cannot be read fails an `assert`. Every
method seeks before it reads, so a `fread` names the offset it reads at.
-/

namespace MultithreadedWebServer

/-- What the checker prints. -/
inductive Line where
  /-- what it is about to do -/
  | progress (text : String)
  /-- a field that is not as expected -/
  | mismatch (text : String)
  /-- a remark -/
  | note (text : String)
  deriving DecidableEq

/-- How the checker dies. -/
inductive CheckerStop where
  /-- a failed `assert` -/
  | assertion
  /-- `%` by zero -/
  | divisionByZero
  /-- a loop that passed the bound the model gives it -/
  | diverges
  deriving DecidableEq

/-- A function of the checker: what it prints is kept. -/
abbrev Checker : Type → Type := StateT (List Line) (Except CheckerStop)

/-- A line of output. -/
def print (line : Line) : Checker Unit := modify fun lines => lines ++ [line]

/-! ## CheckerUtils -/

/-- A number after `cout << hex`. -/
def hex (n : ℕ) : String := String.ofList (Nat.toDigits 16 n)

/-- `%d` of a `uint32_t`. -/
def formatInt (n : ℕ) : String := if n < 2 ^ 31 then toString n else "-" ++ toString (2 ^ 32 - n)

/-- `ToString`: a buffer of 512 characters. -/
def toStringBuf (text : String) : String := String.ofList (text.toList.take 511)

/-- `CheckEQ16`, `CheckEQ32` and `CheckEQ64`, which differ in the conversion `ntoh`. -/
def checkEQ (ntoh : ℕ → ℕ) (name : String) (expected actual : ℕ) (fieldname : String) :
    Checker Unit :=
  if expected = actual then
    return ()
  else
    let text := fieldname ++ ": expected " ++ hex expected ++ ", but actually is " ++ hex actual ++
      "."
    if ntoh actual = expected then
      print (.mismatch (text ++ "  Note: you likely forgot an endianness conversion, since " ++
        name ++ "(actual) == expected."))
    else
      print (.mismatch text)

/-- `CheckLT16` and `CheckLT32`, which differ in the conversion and in a phrase. -/
def checkLT (ntoh : ℕ → ℕ) (name phrase : String) (smaller bigger : ℕ) (fieldname : String) :
    Checker Unit :=
  if smaller < bigger then
    return ()
  else
    let text := fieldname ++ ": expected " ++ hex smaller ++ " < " ++ hex bigger ++ "."
    if ntoh smaller < bigger then
      print (.mismatch (text ++ "  Note: " ++ phrase ++
        " that you forgot an endianness conversion, since " ++ name ++ "(" ++ hex smaller ++
        ") = " ++ hex (ntoh smaller) ++ " < " ++ hex bigger ++ "."))
    else
      print (.mismatch text)

/-- `ntohs`, on numbers. -/
def ntohsNat (n : ℕ) : ℕ := (ntohs (UInt16.ofNat n)).toNat

/-- `ntohl`, on numbers. -/
def ntohlNat (n : ℕ) : ℕ := (ntohl (UInt32.ofNat n)).toNat

/-- `ntohll`, on numbers. -/
def ntohllNat (n : ℕ) : ℕ := (ntohll (UInt64.ofNat n)).toNat

/-- `CheckEQ16`. -/
def checkEQ16 : ℕ → ℕ → String → Checker Unit := checkEQ ntohsNat "ntohs"

/-- `CheckEQ32`. -/
def checkEQ32 : ℕ → ℕ → String → Checker Unit := checkEQ ntohlNat "ntohl"

/-- `CheckEQ64`. -/
def checkEQ64 : ℕ → ℕ → String → Checker Unit := checkEQ ntohllNat "ntohll"

/-- `CheckLT16`. -/
def checkLT16 : ℕ → ℕ → String → Checker Unit := checkLT ntohsNat "ntohs" "there is a chance"

/-- `CheckLT32`. -/
def checkLT32 : ℕ → ℕ → String → Checker Unit := checkLT ntohlNat "ntohl" "it's possible"

/-! ## Reading -/

/-- `assert(fread(...) == 1)`: nothing is read when there is nothing to read. -/
def assertRead (file : List UInt8) (pos n : ℕ) : Checker (List UInt8) :=
  if n = 0 then
    throw .assertion
  else
    match readAt file pos n with
    | none => throw .assertion
    | some bytes => return bytes

/-- A `uint16_t` in network order. -/
def fread16 (file : List UInt8) (pos : ℕ) : Checker ℕ := do
  let bytes ← assertRead file pos 2
  return (ntohs (UInt16.ofNat (leValue bytes))).toNat

/-- A `uint32_t` in network order. -/
def fread32 (file : List UInt8) (pos : ℕ) : Checker ℕ := do
  let bytes ← assertRead file pos 4
  return (ntohl (UInt32.ofNat (leValue bytes))).toNat

/-- A `uint64_t` in network order. -/
def fread64 (file : List UInt8) (pos : ℕ) : Checker ℕ := do
  let bytes ← assertRead file pos 8
  return (ntohll (UInt64.ofNat (leValue bytes))).toNat

/-! ## HashTableChecker -/

/-- The data of a `HashTableChecker`. -/
structure HashTableChecker where
  /-- the file -/
  file : List UInt8
  /-- where the table starts -/
  offset : ℕ
  /-- how long it is -/
  len : ℕ

/-- `CheckElement` of a subclass, with the number of buckets, the offset of the element and
the number of its bucket. -/
abbrev CheckElement : Type := ℕ → ℕ → ℕ → Checker Unit

section Table

variable (checkElement : CheckElement) (c : HashTableChecker) (numBuckets tableEnd : ℕ)

/-- The inner loop of `Check`, with the number of elements that are left. -/
def checkChain (curBucket i : ℕ) : ℕ → ℕ → Checker Unit
  | 0, _ => return ()
  | left + 1, j => do
    let elementPos ← fread32 c.file (u32 (curBucket + j * 4))
    checkLT32 elementPos (u32 (tableEnd + 1))
      (toStringBuf ("bucket[" ++ formatInt i ++ "].element[" ++ formatInt j ++
        "].position < table_end+1"))
    checkElement numBuckets elementPos i
    checkChain curBucket i left (j + 1)

/-- The outer loop of `Check`, with the number of buckets that are left; `prevBucket` is
there once a bucket was not empty. -/
def checkBuckets : ℕ → ℕ → Option ℕ → Checker Unit
  | 0, _, _ => return ()
  | left + 1, i, prevBucket => do
    let recOffset := u32 (c.offset + 4 + 8 * i)
    let curChainLen ← fread32 c.file recOffset
    let curBucket ← fread32 c.file (recOffset + 4)
    let prevBucket ← (match prevBucket with
      | some prev =>
        if 0 < curChainLen then do
          checkLT32 prev curBucket
            (toStringBuf ("bucket_rec[" ++ formatInt i ++ "].position < bucket_rec[" ++
              formatInt (u32 (i + 1)) ++ "].position"))
          return some curBucket
        else
          return some prev
      | none =>
        if 0 < curChainLen then do
          -- the first record, whatever bucket this is
          let _prevChainLen ← fread32 c.file (u32 (c.offset + 4))
          let prev ← fread32 c.file (u32 (c.offset + 4) + 4)
          checkEQ32 (u32 (c.offset + 4 + 8 * numBuckets)) prev
            ("position of the first non-empty bucket (expected to be " ++
              "(table start) + (4) + (8*num_buckets))")
          return some prev
        else
          return none)
    checkLT32 curBucket (u32 (tableEnd + 1))
      (toStringBuf ("bucket_rec[" ++ formatInt i ++ "].position < table_end+1"))
    checkChain checkElement c numBuckets tableEnd curBucket i curChainLen 0
    checkBuckets left (i + 1) prevBucket

/-- `Check`. -/
def check (offset len : ℕ) : Checker Unit := do
  let numBuckets ← fread32 c.file c.offset
  checkLT32 (u32 (numBuckets * 8)) len "num_buckets < len(table)"
  checkBuckets checkElement c numBuckets (u32 (offset + len)) numBuckets 0 none

end Table

/-! ## DocTableChecker -/

/-- `isascii`. -/
def isAscii (c : UInt8) : Bool := c < 128

/-- `isalpha` in the C locale. -/
def isAlphaC (c : UInt8) : Bool := (65 ≤ c && c ≤ 90) || (97 ≤ c && c ≤ 122)

/-- `islower` in the C locale. -/
def isLowerC (c : UInt8) : Bool := 97 ≤ c && c ≤ 122

/-- `docID % numBuckets_`, in 32 bits. -/
def docBucket (docID numBuckets : ℕ) : Checker ℕ :=
  if numBuckets = 0 then throw .divisionByZero else return u32 (docID % numBuckets)

/-- The loop of `DocTableChecker::CheckElement`, with the characters that are left. -/
def checkFilename : ℕ → List UInt8 → Checker Unit
  | _, [] => return ()
  | i, c :: rest => do
    checkEQ16 1 (if isAscii c then 1 else 0)
      (toStringBuf ("[DocTable] isascii(filename)[" ++ formatInt i ++ "]"))
    checkFilename (i + 1) rest

/-- `DocTableChecker::CheckElement`. -/
def docTableCheckElement (file : List UInt8) : CheckElement :=
  fun numBuckets elementOffset bucketNumber => do
    let docID ← fread64 file elementOffset
    let bucket ← docBucket docID numBuckets
    checkEQ32 bucketNumber bucket "[DocTable] DocID % numBuckets_ == bucket_number"
    let fnlen ← fread16 file (elementOffset + 8)
    checkLT16 fnlen 1024 "[DocTable] filename length"
    let filename ← assertRead file (elementOffset + 10) fnlen
    checkFilename 0 filename

/-! ## DocIDTableChecker -/

/-- The loop of `DocIDTableChecker::CheckElement`, with the number of positions that are
left; `prevPos` is there from the second on. -/
def checkPositions (file : List UInt8) : ℕ → ℕ → Option ℕ → Checker Unit
  | 0, _, _ => return ()
  | left + 1, pos, prevPos => do
    let curPos ← fread32 file pos
    match prevPos with
    | none => pure ()
    | some prev => checkLT32 prev curPos "word position[i] < word position[i+1]"
    checkPositions file left (pos + 4) (some curPos)

/-- `DocIDTableChecker::CheckElement`. -/
def docIDTableCheckElement (file : List UInt8) : CheckElement :=
  fun numBuckets elementOffset bucketNumber => do
    let docID ← fread64 file elementOffset
    let bucket ← docBucket docID numBuckets
    checkEQ64 bucketNumber bucket "[DocID table] DocID % numBuckets_ == bucket_number"
    let numPos ← fread32 file (elementOffset + 8)
    checkLT32 numPos 1000000 "[DocID table] num_positions"
    checkPositions file numPos (elementOffset + 12) none

/-! ## IndexTableChecker -/

/-- The loop of `IndexTableChecker::CheckElement`, with the characters that are left. -/
def checkWord (bucketNumber : ℕ) : ℕ → List UInt8 → Checker Unit
  | _, [] => return ()
  | i, c :: rest => do
    checkEQ16 1 (if isAscii c then 1 else 0)
      (toStringBuf ("[IndexTable] isascii(word)[" ++ formatInt i ++ "] in bucket[" ++
        formatInt bucketNumber ++ "]"))
    if isAlphaC c then
      checkEQ16 1 (if isLowerC c then 1 else 0)
        (toStringBuf ("[IndexTable] islower(word)[" ++ formatInt i ++ "] in bucket[" ++
          formatInt bucketNumber ++ "]"))
    checkWord bucketNumber (i + 1) rest

/-- `IndexTableChecker::CheckElement`. -/
def indexTableCheckElement (c : HashTableChecker) : CheckElement :=
  fun _ elementOffset bucketNumber => do
    let wordLen ← fread16 c.file elementOffset
    checkLT16 wordLen 8192
      (toStringBuf ("[IndexTable] unreasonably long word in bucket[" ++ formatInt bucketNumber ++
        "]"))
    let docIDTableLen ← fread32 c.file (elementOffset + 2)
    checkLT32 (u32 (elementOffset + 2 + 4 + wordLen)) (u32 (c.offset + c.len))
      (toStringBuf ("[IndexTable] element_end < indextable_end in bucket[" ++
        formatInt bucketNumber ++ "]"))
    let word ← assertRead c.file (elementOffset + 6) wordLen
    checkWord bucketNumber 0 word
    let docsOffset := u32 (elementOffset + 2 + 4 + wordLen)
    check (docIDTableCheckElement c.file) ⟨c.file, docsOffset, docIDTableLen⟩ docsOffset
      docIDTableLen

/-! ## FileIndexChecker -/

/-- The loop that recomputes the checksum, 512 bytes at a time. -/
def checksumLoop (file : List UInt8) : ℕ → ℕ → ℕ → UInt32 → Checker UInt32
  | 0, _, _, _ => throw .diverges
  | fuel + 1, pos, bytesLeft, crc =>
    if 0 < bytesLeft then
      let buf := (file.drop pos).take 512
      if 0 < buf.length then
        checksumLoop file fuel (pos + buf.length) (u32Sub bytesLeft buf.length)
          (buf.foldl foldByteIntoCRC crc)
      else
        throw .assertion
    else
      return crc

/-- The constructor of `FileIndexChecker`, for the file that it opened. -/
def fileIndexChecker (filename : String) (file : List UInt8) : Checker Unit := do
  print (.progress ("hw3fsck'ing " ++ filename))
  print (.progress "  checking the header...")
  print (.progress "    checking the magic number...")
  let magic ← fread32 file 0
  checkEQ32 magicNumber.toNat magic "magic number"
  let checksum ← fread32 file 4
  let doctableSize ← fread32 file 8
  let indexSize ← fread32 file 12
  print (.progress "    checking file size against table offsets...")
  let rest := u32Sub (u32 file.length) 16
  checkEQ32 rest (u32 (doctableSize + indexSize)) "doctable_size + index_size"
  if u32 (ntohlNat doctableSize + ntohlNat indexSize) = rest then
    print (.note ("Note: you likely forgot an endianness conversion, since " ++
      "ntohl(doctable_size_) + ntohl(index_size_) == filesize - 16"))
  print (.progress "    recalculating the checksum...")
  let crc ← checksumLoop file (file.length + 1) 16 rest crcInit
  checkEQ32 (getFinalCRC crc).toNat checksum "checksum"
  print (.progress "  checking the doctable...")
  check (docTableCheckElement file) ⟨file, 16, doctableSize⟩ 16 doctableSize
  print (.progress "  checking the index table...")
  let indexOffset := u32 (16 + doctableSize)
  check (indexTableCheckElement ⟨file, indexOffset, indexSize⟩) ⟨file, indexOffset, indexSize⟩
    indexOffset indexSize
  print (.progress "  done")

end MultithreadedWebServer
