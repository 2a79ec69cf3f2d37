import Mathlib.Data.Bool.AllAny
import MultithreadedWebServer.UrlParsing

/-!
# What a URL says and what the parser remembers

The encodings of a path and of field and value pairs are a relation: a character may stand
for itself, be escaped, or, for a space, be a plus sign. Whatever was chosen, the parser
finds the path and the pairs, if its indices reach the end of every part. A parser that is
used again keeps the pairs of the URLs before.
-/

namespace MultithreadedWebServer

/-! ## Encodings -/

/-- The characters of a hexadecimal digit, in upper and in lower case. -/
def hexChars (n : ℕ) : List UInt8 :=
  [(ascii "0123456789ABCDEF").getD n 0, (ascii "0123456789abcdef").getD n 0]

/-- The encodings of a string. -/
inductive Encodes : CppString → CppString → Prop where
  /-- nothing -/
  | nil : Encodes [] []
  /-- a character stands for itself -/
  | literal {s t : CppString} {c : UInt8} (hc : c ∉ ascii "%+?&=") (h : Encodes s t) :
    Encodes (c :: s) (c :: t)
  /-- a plus sign stands for a space -/
  | plus {s t : CppString} (h : Encodes s t) : Encodes (32 :: s) (43 :: t)
  /-- an escape sequence stands for a character -/
  | percent {s t : CppString} {c high low : UInt8} (hhigh : high ∈ hexChars (c.toNat / 16))
    (hlow : low ∈ hexChars (c.toNat % 16)) (h : Encodes s t) :
    Encodes (c :: s) (37 :: high :: low :: t)

/-- All characters are in the range that `URIDecode` decodes. -/
def Printable (s : CppString) : Prop := ∀ c ∈ s, 32 ≤ c ∧ c ≤ 127

theorem hexDigit_of_mem {n : ℕ} (hn : n < 16) {c : UInt8} (hc : c ∈ hexChars n) :
    hexDigit c = some n := by
  have hall : ∀ n < 16, ((hexChars n).all fun c => hexDigit c = some n) = true := by decide
  exact of_decide_eq_true (List.all_eq_true.mp (hall n hn) c hc)

theorem hexChars_not_separator {n : ℕ} (hn : n < 16) {c : UInt8} (hc : c ∈ hexChars n) :
    c ∉ ascii "?&=" := by
  have hall : ∀ n < 16, ((hexChars n).all fun c => c ∉ ascii "?&=") = true := by decide
  exact of_decide_eq_true (List.all_eq_true.mp (hall n hn) c hc)

theorem escapeCode_of_mem {c high low : UInt8} (hc : 32 ≤ c ∧ c ≤ 127)
    (hhigh : high ∈ hexChars (c.toNat / 16)) (hlow : low ∈ hexChars (c.toNat % 16)) :
    escapeCode high low = some c := by
  have hlt : c.toNat < 256 := c.toNat_lt
  have hle : 32 ≤ c.toNat ∧ c.toNat ≤ 127 :=
    ⟨UInt8.le_iff_toNat_le.mp hc.1, UInt8.le_iff_toNat_le.mp hc.2⟩
  have hcode : 16 * (c.toNat / 16) + c.toNat % 16 = c.toNat := Nat.div_add_mod _ _
  rw [escapeCode, hexDigit_of_mem (by omega) hhigh, hexDigit_of_mem (by omega) hlow]
  dsimp only
  rw [hcode, if_pos hle, UInt8.ofNat_toNat]

/-- Decoding undoes every encoding. -/
theorem Encodes.decode {s t : CppString} (h : Encodes s t) (hs : Printable s) :
    decodeLoop t = s := by
  induction h with
  | nil => rfl
  | @literal s t c hc h ih =>
    obtain ⟨-, hs⟩ := List.forall_mem_cons.mp hs
    have hpercent : c ≠ 37 := by
      rintro rfl
      exact hc (by decide)
    have hplus : c ≠ 43 := by
      rintro rfl
      exact hc (by decide)
    rw [decodeLoop_cons (leadingEscape_of_ne hpercent t), if_neg hplus, ih hs]
  | @plus s t h ih =>
    obtain ⟨-, hs⟩ := List.forall_mem_cons.mp hs
    rw [decodeLoop_cons (leadingEscape_of_ne (by decide) t), if_pos rfl, ih hs]
  | percent hhigh hlow h ih =>
    obtain ⟨hc, hs⟩ := List.forall_mem_cons.mp hs
    rw [decodeLoop_escape (escapeCode_of_mem hc hhigh hlow), ih hs]

/-- No encoding has a character that separates the parts of a URL. -/
theorem Encodes.not_separator {s t : CppString} (h : Encodes s t) :
    ∀ c ∈ t, c ∉ ascii "?&=" := by
  induction h with
  | nil => exact fun _ hc => nomatch hc
  | @literal s t c hc h ih =>
    refine List.forall_mem_cons.mpr ⟨fun hsep => hc ?_, ih⟩
    exact List.mem_cons_of_mem _ (List.mem_cons_of_mem _ hsep)
  | plus h ih => exact List.forall_mem_cons.mpr ⟨by decide, ih⟩
  | @percent s t c high low hhigh hlow h ih =>
    have hlt : c.toNat < 256 := c.toNat_lt
    refine List.forall_mem_cons.mpr ⟨by decide, List.forall_mem_cons.mpr ⟨?_, ?_⟩⟩
    · exact hexChars_not_separator (by omega) hhigh
    · exact List.forall_mem_cons.mpr ⟨hexChars_not_separator (by omega) hlow, ih⟩

/-! ## Encoded URLs -/

/-- A path and pairs, and texts that encode them. -/
structure EncodesUrl (path : CppString) (pairs : List (CppString × CppString))
    (encPath : CppString) (encPairs : List (CppString × CppString)) : Prop where
  /-- the path -/
  path : Encodes path encPath
  /-- the fields and the values -/
  pairs : List.Forall₂ (fun e e' => Encodes e.1 e'.1 ∧ Encodes e.2 e'.2) pairs encPairs

/-- A new parser finds the path, and the map of the pairs, in the URL. -/
def ParsesTo (url path : CppString) (pairs : List (CppString × CppString)) : Prop :=
  ∃ parser, URLParser.new.parse url = .ok parser ∧ parser.path = path ∧
    parser.args = StringMap.ofPairs pairs

section Urls

variable {path encPath : CppString} {pairs encPairs : List (CppString × CppString)}

/-- The encoded pairs have no separators in them. -/
theorem EncodesUrl.not_separator (h : EncodesUrl path pairs encPath encPairs) :
    ∀ e ∈ encPairs, ∀ c, c ∈ e.1 ∨ c ∈ e.2 → c ∉ ascii "?&=" := by
  induction h.pairs with
  | nil => exact fun _ he => nomatch he
  | cons henc _ ih =>
    refine List.forall_mem_cons.mpr ⟨fun c hc => ?_, ih ⟨h.path, ‹_›⟩⟩
    exact hc.elim (henc.1.not_separator c) (henc.2.not_separator c)

/-- Decoding the encoded pairs gives the pairs. -/
theorem EncodesUrl.decode_pairs (h : EncodesUrl path pairs encPath encPairs)
    (hpairs : ∀ e ∈ pairs, Printable e.1 ∧ Printable e.2) :
    (encPairs.map fun e => (decodeLoop e.1, decodeLoop e.2)) = pairs := by
  induction h.pairs with
  | nil => rfl
  | cons henc _ ih =>
    obtain ⟨he, hpairs⟩ := List.forall_mem_cons.mp hpairs
    rw [List.map_cons, henc.1.decode he.1, henc.2.decode he.2, ih ⟨h.path, ‹_›⟩ hpairs]

/-- Nothing in the encoded parts ends them. -/
theorem EncodesUrl.plain (h : EncodesUrl path pairs encPath encPairs) :
    PlainParts encPath encPairs where
  path := by
    intro c hc hmem
    obtain rfl : c = 63 := List.mem_singleton.mp hmem
    exact h.path.not_separator 63 hc (by decide)
  pairs := h.not_separator

/-- Parsing undoes every encoding, exactly if the parts of the URL are not too long for the
indices of the parser. -/
theorem encoded_url_round_trip_iff (h : EncodesUrl path pairs encPath encPairs)
    (hpath : Printable path) (hpairs : ∀ e ∈ pairs, Printable e.1 ∧ Printable e.2) :
    ParsesTo (urlOf encPath encPairs) path pairs ↔
      encPath.length < 2 ^ 32 ∧ encPairs.length < 2 ^ 32 ∧
        ∀ e ∈ encPairs, e.1.length < 2 ^ 32 ∧ e.2.length < 2 ^ 32 := by
  have hplain := h.plain
  rw [← shortUrl_urlOf_iff hplain]
  constructor
  · rintro ⟨parser, hparse, -⟩
    exact (parse_ok_iff.mp hparse).1
  · intro hs
    refine ⟨_, parse_of_short hs _, ?_, ?_⟩
    · dsimp only
      rw [urlPath_urlOf hplain, h.path.decode hpath]
    · dsimp only
      rw [urlPairs, urlTexts_urlOf hplain, h.decode_pairs hpairs]
      rfl

/-- A space as a plus sign, a letter as an escape sequence, and a field twice. -/
theorem encoded_url_round_trip_iff_small :
    ParsesTo (ascii "/f%6fo?a=x+y&a=%3D") (ascii "/foo")
      [(ascii "a", ascii "x y"), (ascii "a", ascii "=")] := by
  have hpath : Encodes (ascii "/foo") (ascii "/f%6fo") :=
    .literal (by decide) (.literal (by decide) (.percent (by decide) (by decide)
      (.literal (by decide) .nil)))
  have hfield : Encodes (ascii "a") (ascii "a") := .literal (by decide) .nil
  have hvalue : Encodes (ascii "x y") (ascii "x+y") :=
    .literal (by decide) (.plus (.literal (by decide) .nil))
  have hequals : Encodes (ascii "=") (ascii "%3D") := .percent (by decide) (by decide) .nil
  have henc : EncodesUrl (ascii "/foo") [(ascii "a", ascii "x y"), (ascii "a", ascii "=")]
      (ascii "/f%6fo") [(ascii "a", ascii "x+y"), (ascii "a", ascii "%3D")] :=
    ⟨hpath, .cons ⟨hfield, hvalue⟩ (.cons ⟨hfield, hequals⟩ .nil)⟩
  have hprint : Printable (ascii "/foo") := List.all_iff_forall_prop.mp (by decide)
  have ha : Printable (ascii "a") := List.all_iff_forall_prop.mp (by decide)
  have hxy : Printable (ascii "x y") := List.all_iff_forall_prop.mp (by decide)
  have heq : Printable (ascii "=") := List.all_iff_forall_prop.mp (by decide)
  have hpairs : ∀ e ∈ [(ascii "a", ascii "x y"), (ascii "a", ascii "=")],
      Printable e.1 ∧ Printable e.2 :=
    List.forall_mem_cons.mpr ⟨⟨ha, hxy⟩, List.forall_mem_singleton.mpr ⟨ha, heq⟩⟩
  refine (encoded_url_round_trip_iff henc hprint hpairs).mpr ⟨by decide, by decide, ?_⟩
  exact List.forall_mem_cons.mpr ⟨by decide, List.forall_mem_singleton.mpr (by decide)⟩

/-- A path of `2 ^ 32` letters: the index of `URIDecode` is back at 0 before it is past the
end. -/
theorem long_path_never_parsed : ∃ path : CppString, path = List.replicate (2 ^ 32) 97 ∧
    Printable path ∧ EncodesUrl path [] path [] ∧ ¬ ParsesTo (urlOf path []) path [] := by
  have hliteral : ∀ n, Encodes (List.replicate n 97) (List.replicate n 97) := by
    intro n
    induction n with
    | zero => exact .nil
    | succ n ih => exact .literal (by decide) ih
  have hprint : Printable (List.replicate (2 ^ 32) 97) := by
    intro c hc
    rw [List.eq_of_mem_replicate hc]
    decide
  have henc : EncodesUrl (List.replicate (2 ^ 32) 97) [] (List.replicate (2 ^ 32) 97) [] :=
    ⟨hliteral _, .nil⟩
  refine ⟨_, rfl, hprint, henc, ?_⟩
  rintro ⟨parser, hparse, -⟩
  obtain ⟨hshort, -⟩ := parse_ok_iff.mp hparse
  have hlt := ((shortUrl_urlOf_iff henc.plain).mp hshort).1
  rw [List.length_replicate] at hlt
  exact Nat.lt_irrefl _ hlt

end Urls

/-! ## One parser for several URLs -/

/-- URLs parsed by one parser, one after the other. -/
def URLParser.parseAll (parser : URLParser) : List CppString → Except Stop URLParser
  | [] => return parser
  | url :: urls => do
    let parser ← parser.parse url
    parser.parseAll urls

/-- The parser has the pairs of all URLs. -/
theorem parseAll_args {urls : List CppString} {parser parser' : URLParser}
    (h : parser.parseAll urls = .ok parser') :
    parser'.args = StringMap.assignAll parser.args (urls.flatMap urlPairs) := by
  induction urls generalizing parser with
  | nil =>
    obtain rfl := Except.ok.inj h
    rfl
  | cons url urls ih =>
    rw [URLParser.parseAll] at h
    by_cases hs : ShortUrl url
    · rw [parse_of_short hs, ok_bind] at h
      rw [ih h, List.flatMap_cons, StringMap.assignAll_append]
    · rw [parse_of_not_short hs] at h
      cases h

theorem parseAll_append_singleton {urls : List CppString} {url : CppString}
    {parser parser' : URLParser} (h : parser.parseAll (urls ++ [url]) = .ok parser') :
    ∃ before, parser.parseAll urls = .ok before ∧ before.parse url = .ok parser' := by
  induction urls generalizing parser with
  | nil =>
    rw [List.nil_append, URLParser.parseAll] at h
    refine ⟨parser, rfl, ?_⟩
    cases hparse : parser.parse url with
    | error e =>
      rw [hparse] at h
      cases h
    | ok last =>
      rw [hparse] at h
      exact h
  | cons url' urls ih =>
    rw [List.cons_append, URLParser.parseAll] at h
    by_cases hs : ShortUrl url'
    · rw [parse_of_short hs, ok_bind] at h
      obtain ⟨before, hbefore, hlast⟩ := ih h
      refine ⟨before, ?_, hlast⟩
      rw [URLParser.parseAll, parse_of_short hs, ok_bind, hbefore]
    · rw [parse_of_not_short hs] at h
      cases h

/-- The parser has the same path and arguments as a new one that only parsed the URL. -/
def LooksFresh (parser : URLParser) (url : CppString) : Prop :=
  ∃ fresh, URLParser.new.parse url = .ok fresh ∧ parser.path = fresh.path ∧
    parser.args = fresh.args

/-- Parsing forgets the URLs before exactly if the last one gives a value to every field
that one of them gave a value to. -/
theorem parse_forgets_iff {urls : List CppString} {url : CppString} {parser : URLParser}
    (h : URLParser.new.parseAll (urls ++ [url]) = .ok parser) :
    LooksFresh parser url ↔ ∀ earlier ∈ urls, urlFields earlier ⊆ urlFields url := by
  obtain ⟨before, hbefore, hlast⟩ := parseAll_append_singleton h
  obtain ⟨hs, rfl⟩ := parse_ok_iff.mp hlast
  have hargs : before.args = StringMap.ofPairs (urls.flatMap urlPairs) := parseAll_args hbefore
  have hfields : (∀ earlier ∈ urls, urlFields earlier ⊆ urlFields url) ↔
      (urls.flatMap urlPairs).map Prod.fst ⊆ (urlPairs url).map Prod.fst := by
    rw [List.map_flatMap]
    constructor
    · intro hall field hfield
      obtain ⟨earlier, hmem, hin⟩ := List.mem_flatMap.mp hfield
      exact hall earlier hmem hin
    · intro hsub earlier hmem field hfield
      exact hsub (List.mem_flatMap.mpr ⟨earlier, hmem, hfield⟩)
  rw [hfields, ← StringMap.assignAll_eq_ofPairs_iff, ← hargs]
  constructor
  · rintro ⟨fresh, hparse, -, heq⟩
    obtain ⟨-, rfl⟩ := parse_ok_iff.mp hparse
    exact heq
  · exact fun heq => ⟨_, parse_of_short hs _, rfl, heq⟩

/-- The second URL gives the field of the first another value. -/
theorem parse_forgets_iff_same_field :
    ∃ parser, URLParser.new.parseAll [ascii "/a?x=1", ascii "/b?x=2"] = .ok parser ∧
      LooksFresh parser (ascii "/b?x=2") := by
  have hrun : URLParser.new.parseAll ([ascii "/a?x=1"] ++ [ascii "/b?x=2"]) =
      .ok ⟨ascii "/b?x=2", ascii "/b", [(ascii "x", ascii "2")]⟩ := by decide
  refine ⟨_, hrun, (parse_forgets_iff hrun).mpr ?_⟩
  rw [List.forall_mem_singleton]
  decide

/-- The second URL has no arguments, and those of the first are still there. -/
theorem earlier_field_remembered :
    ∃ parser, URLParser.new.parseAll [ascii "/a?x=1", ascii "/b"] = .ok parser ∧
      ¬ LooksFresh parser (ascii "/b") := by
  refine ⟨⟨ascii "/b", ascii "/b", [(ascii "x", ascii "1")]⟩, by decide, ?_⟩
  rintro ⟨fresh, hparse, -, heq⟩
  have hfresh : URLParser.new.parse (ascii "/b") = .ok ⟨ascii "/b", ascii "/b", []⟩ := by decide
  obtain rfl := Except.ok.inj (hfresh.symm.trans hparse)
  cases heq

end MultithreadedWebServer
