import MultithreadedWebServer.Frames

/-!
# Strings of bytes

`std::string` is a list of bytes that may contain any byte, NUL included. This module
has the operations of the standard library and of Boost that the web server uses on
them; each follows the documented behaviour of the function it is named after.
-/

namespace MultithreadedWebServer

/-- `std::string`. -/
abbrev CppString : Type := List UInt8

/-- A literal. -/
def ascii (s : String) : CppString := s.toList.map fun c => UInt8.ofNat c.toNat

/-- `std::to_string` of an unsigned number. -/
def decimal (n : ℕ) : CppString := (Nat.toDigits 10 n).map fun c => UInt8.ofNat c.toNat

/-! ## Splitting and trimming -/

/-- `boost::split` with `token_compress_off`: the tokens between delimiters. -/
def split (delimiters s : CppString) : List CppString := s.splitOnP fun c => c ∈ delimiters

/-- `boost::split` with `token_compress_on`: adjacent delimiters count as one, so an
empty token is only left at the start and at the end. -/
def splitCompress (delimiters s : CppString) : List CppString :=
  match split delimiters s with
  | [] => []
  | [token] => [token]
  | first :: rest =>
    first :: (rest.dropLast.filter (· ≠ []) ++ [rest.getLastD []])

theorem splitCompress_ne_nil (delimiters s : CppString) : splitCompress delimiters s ≠ [] := by
  unfold splitCompress
  have hne : split delimiters s ≠ [] := List.splitOnP_ne_nil _ _
  split
  · rename_i h
    exact absurd h hne
  · simp
  · simp

/-- `isspace` in the C locale. -/
def isSpace (c : UInt8) : Bool := c = 32 || (9 ≤ c && c ≤ 13)

/-- `boost::trim_right`. -/
def trimRight (s : CppString) : CppString := s.reverse.dropWhile isSpace |>.reverse

/-- `boost::trim`. -/
def trim (s : CppString) : CppString := (trimRight s).dropWhile isSpace

/-- `boost::replace_all` for a pattern of one character. -/
def replaceAll (s : CppString) (c : UInt8) (replacement : CppString) : CppString :=
  s.flatMap fun d => if d = c then replacement else [d]

/-! ## Maps -/

/-- `std::map<string, string>`: the pairs in the order of their keys. -/
abbrev StringMap : Type := List (CppString × CppString)

/-- `m[key] = value`. -/
def StringMap.assign (key value : CppString) : StringMap → StringMap
  | [] => [(key, value)]
  | (k, v) :: m =>
    if key = k then (key, value) :: m
    else if key < k then (key, value) :: (k, v) :: m
    else (k, v) :: assign key value m

/-- The value of a key, if there is one. -/
def StringMap.find? (m : StringMap) (key : CppString) : Option CppString :=
  (List.find? (fun e => e.1 = key) m).map Prod.snd

end MultithreadedWebServer
