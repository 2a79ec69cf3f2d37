import MultithreadedWebServer.ByteStrings
import MultithreadedWebServer.FileParser

/-!
# HttpUtils.cc: paths, escaping, URLs and wrapped reads and writes

The operating system enters through two records. `FileSystem` answers `realpath`, with
a canonical absolute path, and what `ReadFile` asks about a path. A `Socket` lists how
the coming `read` and `write` calls end, and keeps what was written.
-/

namespace MultithreadedWebServer

/-! ## Canonical paths -/

/-- A component of a canonical path. -/
@[ext] structure Component where
  /-- its characters -/
  name : List UInt8
  /-- there are some -/
  ne : name ≠ []
  /-- none is a slash -/
  noSlash : (47 : UInt8) ∉ name
  /-- none is NUL -/
  noNul : (0 : UInt8) ∉ name
  /-- it is not `.` -/
  notDot : name ≠ [46]
  /-- nor `..` -/
  notDotDot : name ≠ [46, 46]

instance : DecidableEq Component := fun _ _ => decidable_of_iff _ Component.ext_iff.symm

/-- What `realpath` returns: an absolute path without `.`, `..`, double or trailing
slashes. -/
abbrev CanonicalPath : Type := List Component

/-- The characters of a canonical path; the root is a single slash. -/
def CanonicalPath.render : CanonicalPath → List UInt8
  | [] => [47]
  | cs => cs.flatMap fun c => 47 :: c.name

/-- What the operating system says about paths. -/
structure FileSystem where
  /-- `realpath` -/
  realpath : CString → Option CanonicalPath
  /-- what `stat`, `open` and `read` find at a path -/
  file : CString → FileSource

/-- `IsPathSafe`. -/
def isPathSafe (fs : FileSystem) (rootdir testfile : CppString) : Bool :=
  match fs.realpath (CString.ofBytes rootdir), fs.realpath (CString.ofBytes testfile) with
  | some root, some test =>
    let rootpathbuffer := CanonicalPath.render root
    let testfilebuffer := CanonicalPath.render test
    if testfilebuffer.length ≤ rootpathbuffer.length then false
    -- `strncmp` over the length of the root
    else if testfilebuffer.take rootpathbuffer.length ≠ rootpathbuffer then false
    else true
  | _, _ => false

/-! ## Escaping -/

/-- `EscapeHTML`. -/
def escapeHTML (s : CppString) : CppString :=
  let ret := replaceAll s 38 (ascii "&amp;")
  let ret := replaceAll ret 34 (ascii "&quot;")
  let ret := replaceAll ret 39 (ascii "&apos;")
  let ret := replaceAll ret 60 (ascii "&lt;")
  replaceAll ret 62 (ascii "&gt;")

/-- `toupper` in the C locale. -/
def toUpper (c : UInt8) : UInt8 := if 97 ≤ c ∧ c ≤ 122 then c - 32 else c

/-- The value of a hexadecimal digit. -/
def hexDigit (c : UInt8) : Option ℕ :=
  let c := toUpper c
  if 48 ≤ c ∧ c ≤ 57 then some (c.toNat - 48)
  else if 65 ≤ c ∧ c ≤ 70 then some (10 + (c.toNat - 65))
  else none

/-- The code of an escape sequence, if it is one and reasonable. -/
def escapeCode (c2 c3 : UInt8) : Option UInt8 :=
  match hexDigit c2, hexDigit c3 with
  | some high, some low =>
    let code := 16 * high + low
    if 32 ≤ code ∧ code ≤ 127 then some (UInt8.ofNat code) else none
  | _, _ => none

/-- The loop of `URIDecode`. -/
def decodeLoop : CppString → CppString
  | [] => []
  | c1 :: c2 :: c3 :: rest =>
    if c1 = 43 then 32 :: decodeLoop (c2 :: c3 :: rest)
    else if c1 = 37 then
      match escapeCode c2 c3 with
      | some code => code :: decodeLoop rest
      | none => c1 :: decodeLoop (c2 :: c3 :: rest)
    else c1 :: decodeLoop (c2 :: c3 :: rest)
  | c1 :: rest =>
    -- too short for an escape sequence
    (if c1 = 43 then 32 else c1) :: decodeLoop rest

/-- `URIDecode`; its `unsigned int` index never reaches a length of `2 ^ 32` or more. -/
def uriDecode (s : CppString) : Except Stop CppString :=
  if s.length < 2 ^ 32 then .ok (decodeLoop s) else .error .diverges

/-! ## URLs -/

/-- `URLParser`. -/
structure URLParser where
  /-- the URL -/
  url : CppString
  /-- the path component, decoded -/
  path : CppString
  /-- the args component, decoded -/
  args : StringMap
  deriving DecidableEq

/-- A new `URLParser`. -/
def URLParser.new : URLParser := ⟨[], [], []⟩

/-- The loop of `URLParser::Parse` over the `field=val` chunks. -/
def parseArgs : List CppString → StringMap → Except Stop StringMap
  | [], args => pure args
  | val :: vals, args => do
    match split (ascii "=") val with
    | [field, value] =>
      let value ← uriDecode value
      let field ← uriDecode field
      parseArgs vals (StringMap.assign field value args)
    | _ => parseArgs vals args

/-- `URLParser::Parse`. -/
def URLParser.parse (parser : URLParser) (url : CppString) : Except Stop URLParser := do
  match split (ascii "?") url with
  | [] => return { parser with url := url }
  | [ps0] =>
    let path ← uriDecode ps0
    return { parser with url := url, path := path }
  | ps0 :: ps1 :: _ =>
    let path ← uriDecode ps0
    let vals := split (ascii "&") ps1
    -- the loop index is an `unsigned int` as well
    if vals.length < 2 ^ 32 then
      let args ← parseArgs vals parser.args
      return ⟨url, path, args⟩
    else
      throw .diverges

/-! ## Sockets -/

/-- How a `write` call ends. -/
inductive WriteOutcome : Type where
  /-- so many bytes are accepted, or all that were offered -/
  | accepts (n : ℕ)
  /-- -1 with `EINTR` or `EAGAIN` -/
  | retry
  /-- -1 with any other error -/
  | fatal
  deriving DecidableEq

/-- A connected socket, seen from the server. -/
structure Socket where
  /-- how the coming `read` calls end; after the last one the stream is at its end -/
  reads : List ReadOutcome
  /-- how the coming `write` calls end; after the last one everything is accepted -/
  writes : List WriteOutcome
  /-- the bytes the server has written -/
  sent : List UInt8
  deriving DecidableEq

/-- The loop of `WrappedRead`: the bytes read, or `none` for -1, and what is left. -/
def readOnce (readlen : ℕ) : List ReadOutcome → Option (List UInt8) × List ReadOutcome
  | [] => (some [], [])
  | .retry :: reads => readOnce readlen reads
  | .fatal :: reads => (none, reads)
  | .bytes bs :: reads =>
    if bs.length ≤ readlen then (some bs, reads)
    else (some (bs.take readlen), .bytes (bs.drop readlen) :: reads)

/-- `WrappedRead`. -/
def wrappedRead (readlen : ℕ) : Run Socket (Option (List UInt8)) := fun socket =>
  let (res, reads) := readOnce readlen socket.reads
  .ok (res, { socket with reads := reads })

/-- The loop of `WrappedWrite`: `written_so_far` is the difference of the lengths. -/
def writeLoop : List WriteOutcome → List UInt8 → List UInt8 → List UInt8 × List WriteOutcome
  | writes, [], sent => (sent, writes)
  | [], left, sent => (sent ++ left, [])
  | .retry :: writes, left, sent => writeLoop writes left sent
  | .fatal :: writes, _, sent => (sent, writes)
  | .accepts n :: writes, left, sent =>
    if n = 0 then (sent, writes)
    else writeLoop writes (left.drop n) (sent ++ left.take n)

/-- `WrappedWrite`; nothing is written for a `writelen` that is not positive. -/
def wrappedWrite (buf : List UInt8) (writelen : ℤ) : Run Socket ℤ := fun socket =>
  let (sent, writes) := writeLoop socket.writes (buf.take writelen.toNat) socket.sent
  .ok ((sent.length - socket.sent.length : ℕ), { socket with writes := writes, sent := sent })

end MultithreadedWebServer
