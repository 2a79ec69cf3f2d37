import MultithreadedWebServer.HttpUtils
import MultithreadedWebServer.StringMaps
import MultithreadedWebServer.StringTokens

/-!
# Decoding and parsing URLs

`URIDecode` replaces plus signs and escape sequences, each once: what an escape sequence
stands for is not looked at again. `URLParser::Parse` splits first and decodes then, so it
is the decoding of the parts that the text of a URL has.
-/

namespace MultithreadedWebServer

/-! ## Decoding -/

/-- The code of the escape sequence that a string starts with. -/
def leadingEscape : CppString → Option UInt8
  | c1 :: c2 :: c3 :: _ => if c1 = 37 then escapeCode c2 c3 else none
  | _ => none

/-- An escape sequence occurs in the string. -/
def hasEscape (s : CppString) : Bool := s.tails.any fun t => (leadingEscape t).isSome

theorem hasEscape_cons (c : UInt8) (s : CppString) :
    hasEscape (c :: s) = ((leadingEscape (c :: s)).isSome || hasEscape s) := by
  rw [hasEscape, List.tails_cons, List.any_cons]
  rfl

/-- An escape sequence is replaced by what it stands for. -/
theorem decodeLoop_escape {c2 c3 code : UInt8} (h : escapeCode c2 c3 = some code)
    (s : CppString) : decodeLoop (37 :: c2 :: c3 :: s) = code :: decodeLoop s := by
  rw [decodeLoop, if_neg (by decide), if_pos rfl, h]

/-- A character that does not start an escape sequence stays, unless it is a plus sign. -/
theorem decodeLoop_cons {c : UInt8} {s : CppString} (h : leadingEscape (c :: s) = none) :
    decodeLoop (c :: s) = (if c = 43 then 32 else c) :: decodeLoop s := by
  match s with
  | [] => rfl
  | [_] => rfl
  | c2 :: c3 :: rest =>
    rw [decodeLoop]
    by_cases hplus : c = 43
    · rw [if_pos hplus, if_pos hplus]
    · rw [if_neg hplus, if_neg hplus]
      by_cases hpercent : c = 37
      · have hnone : escapeCode c2 c3 = none := by
          rw [leadingEscape, if_pos hpercent] at h
          exact h
        rw [if_pos hpercent, hnone]
      · rw [if_neg hpercent]

theorem leadingEscape_of_ne {c : UInt8} (hc : c ≠ 37) (s : CppString) :
    leadingEscape (c :: s) = none := by
  match s with
  | [] => rfl
  | [_] => rfl
  | _ :: _ :: _ => exact if_neg hc

/-- Text without plus and percent signs stays. -/
theorem decodeLoop_append {s : CppString} (h : ∀ c ∈ s, c ≠ 37 ∧ c ≠ 43) (t : CppString) :
    decodeLoop (s ++ t) = s ++ decodeLoop t := by
  induction s with
  | nil => rfl
  | cons c s ih =>
    obtain ⟨hc, hs⟩ := List.forall_mem_cons.mp h
    rw [List.cons_append, decodeLoop_cons (leadingEscape_of_ne hc.1 _), if_neg hc.2, ih hs]
    rfl

/-- Without escape sequences only the plus signs change. -/
theorem decodeLoop_of_noPercent {s : CppString} (h : (37 : UInt8) ∉ s) :
    decodeLoop s = s.map fun c => if c = 43 then 32 else c := by
  induction s with
  | nil => rfl
  | cons c s ih =>
    have hc : c ≠ 37 := fun he => h (he ▸ List.mem_cons_self)
    have hs : (37 : UInt8) ∉ s := fun hm => h (List.mem_cons_of_mem _ hm)
    rw [decodeLoop_cons (leadingEscape_of_ne hc _), ih hs]
    rfl

/-- What a string starts with is an escape sequence, or it is one character. -/
theorem decodeLoop_cases (c : UInt8) (s : CppString) :
    (∃ c2 c3 code rest, c = 37 ∧ s = c2 :: c3 :: rest ∧ escapeCode c2 c3 = some code ∧
      decodeLoop (c :: s) = code :: decodeLoop rest) ∨
    (leadingEscape (c :: s) = none ∧
      decodeLoop (c :: s) = (if c = 43 then 32 else c) :: decodeLoop s) := by
  cases hlead : leadingEscape (c :: s) with
  | none => exact .inr ⟨rfl, decodeLoop_cons hlead⟩
  | some code =>
    match s with
    | [] => cases hlead
    | [_] => cases hlead
    | c2 :: c3 :: rest =>
      rw [leadingEscape] at hlead
      split at hlead
      · rename_i hc
        subst hc
        exact .inl ⟨c2, c3, code, rest, rfl, rfl, hlead, decodeLoop_escape hlead rest⟩
      · cases hlead

theorem length_decodeLoop_le (s : CppString) : (decodeLoop s).length ≤ s.length := by
  induction hn : s.length using Nat.strong_induction_on generalizing s with
  | _ n ih =>
    subst hn
    cases s with
    | nil => exact Nat.le_refl _
    | cons c s =>
      rcases decodeLoop_cases c s with ⟨c2, c3, code, rest, -, rfl, -, hdecode⟩ | ⟨-, hdecode⟩
      · have hrest := ih rest.length (by simp only [List.length_cons]; omega) rest rfl
        rw [hdecode]
        simp only [List.length_cons]
        omega
      · have hrest := ih s.length (by simp) s rfl
        rw [hdecode]
        simp only [List.length_cons]
        omega

/-- Decoding leaves a string alone exactly if it has no plus sign and no escape sequence. -/
theorem decodeLoop_eq_self_iff (s : CppString) :
    decodeLoop s = s ↔ (43 : UInt8) ∉ s ∧ hasEscape s = false := by
  induction s with
  | nil => exact ⟨fun _ => ⟨List.not_mem_nil, rfl⟩, fun _ => rfl⟩
  | cons c s ih =>
    rw [hasEscape_cons, List.mem_cons, not_or, Bool.or_eq_false_iff]
    rcases decodeLoop_cases c s with
      ⟨c2, c3, code, rest, rfl, rfl, hcode, hdecode⟩ | ⟨hnone, hdecode⟩
    · have hlead : leadingEscape (37 :: c2 :: c3 :: rest) = some code := by
        rw [leadingEscape, if_pos rfl, hcode]
      constructor
      · intro heq
        -- three characters have become one
        have hlen := congrArg List.length (hdecode.symm.trans heq)
        have hle := length_decodeLoop_le rest
        simp only [List.length_cons] at hlen
        omega
      · rintro ⟨-, hescape, -⟩
        rw [hlead] at hescape
        cases hescape
    · rw [hdecode, List.cons.injEq, ih, hnone]
      constructor
      · rintro ⟨hc, hs, hescape⟩
        refine ⟨⟨?_, hs⟩, rfl, hescape⟩
        rintro rfl
        cases hc
      · rintro ⟨⟨hc, hs⟩, -, hescape⟩
        exact ⟨if_neg (Ne.symm hc), hs, hescape⟩

theorem uriDecode_of_lt {s : CppString} (h : s.length < 2 ^ 32) :
    uriDecode s = .ok (decodeLoop s) :=
  if_pos h

theorem uriDecode_of_not_lt {s : CppString} (h : ¬ s.length < 2 ^ 32) :
    uriDecode s = .error .diverges :=
  if_neg h

/-! ## The parts of a URL -/

/-- The text of the path component. -/
def urlPath (url : CppString) : CppString := (split (ascii "?") url).headD []

/-- The texts of the `field=val` chunks. -/
def urlChunks (url : CppString) : List CppString :=
  match (split (ascii "?") url)[1]? with
  | none => []
  | some args => split (ascii "&") args

/-- The texts of the field and the value of a chunk. -/
def fieldValue (chunk : CppString) : Option (CppString × CppString) :=
  match split (ascii "=") chunk with
  | [field, value] => some (field, value)
  | _ => none

/-- The texts of all fields and values. -/
def urlTexts (url : CppString) : List (CppString × CppString) :=
  (urlChunks url).filterMap fieldValue

/-- The fields and the values. -/
def urlPairs (url : CppString) : List (CppString × CppString) :=
  (urlTexts url).map fun e => (decodeLoop e.1, decodeLoop e.2)

/-- The fields that a URL gives a value to. -/
def urlFields (url : CppString) : List CppString := (urlPairs url).map Prod.fst

/-- Nothing in the URL is too long for the `unsigned int` indices of the parser. -/
structure ShortUrl (url : CppString) : Prop where
  /-- neither the path -/
  path : (urlPath url).length < 2 ^ 32
  /-- nor the list of chunks -/
  chunks : (urlChunks url).length < 2 ^ 32
  /-- nor a field or a value -/
  texts : ∀ e ∈ urlTexts url, e.1.length < 2 ^ 32 ∧ e.2.length < 2 ^ 32

/-! ## URLs without arguments -/

section Plain

variable {url : CppString}

theorem split_of_noQuestion (h : (63 : UInt8) ∉ url) : split (ascii "?") url = [url] := by
  refine split_eq_singleton fun c hc hmem => ?_
  obtain rfl : c = 63 := List.mem_singleton.mp hmem
  exact h hc

/-- Without a question mark a URL is its path. -/
theorem urlPath_of_noQuestion (h : (63 : UInt8) ∉ url) : urlPath url = url := by
  rw [urlPath, split_of_noQuestion h]
  rfl

theorem urlChunks_of_noQuestion (h : (63 : UInt8) ∉ url) : urlChunks url = [] := by
  rw [urlChunks, split_of_noQuestion h]
  rfl

/-- Only its length counts. -/
theorem shortUrl_of_noQuestion (h : (63 : UInt8) ∉ url) : ShortUrl url ↔ url.length < 2 ^ 32 := by
  constructor
  · intro hshort
    have hpath := hshort.path
    rw [urlPath_of_noQuestion h] at hpath
    exact hpath
  · intro hlen
    refine ⟨?_, ?_, ?_⟩
    · rw [urlPath_of_noQuestion h]
      exact hlen
    · rw [urlChunks_of_noQuestion h]
      exact Nat.two_pow_pos 32
    · rw [urlTexts, urlChunks_of_noQuestion h]
      intro e he
      cases he

end Plain

/-! ## URLs from their parts -/

/-- The text of a chunk. -/
def chunkOf (e : CppString × CppString) : CppString := e.1 ++ ascii "=" ++ e.2

/-- The URL with these texts. -/
def urlOf (encPath : CppString) (encPairs : List (CppString × CppString)) : CppString :=
  encPath ++ ascii "?" ++ joinWords 38 (encPairs.map chunkOf)

/-- No part of a URL has a character that ends it. -/
structure PlainParts (path : CppString) (pairs : List (CppString × CppString)) : Prop where
  /-- neither the path -/
  path : ∀ c ∈ path, c ∉ ascii "?"
  /-- nor a field or a value -/
  pairs : ∀ e ∈ pairs, ∀ c, c ∈ e.1 ∨ c ∈ e.2 → c ∉ ascii "?&="

section Parts

variable {path : CppString} {pairs : List (CppString × CppString)}

/-- A chunk has one field and one value. -/
theorem fieldValue_chunkOf {e : CppString × CppString}
    (he : ∀ c, c ∈ e.1 ∨ c ∈ e.2 → c ∉ ascii "?&=") : fieldValue (chunkOf e) = some e := by
  have hequals : ∀ c, c ∈ e.1 ∨ c ∈ e.2 → c ∉ ascii "=" := by
    intro c hc hmem
    obtain rfl : c = 61 := List.mem_singleton.mp hmem
    exact he 61 hc (by decide)
  have hvalue : split (ascii "=") e.2 = [e.2] := split_eq_singleton fun c hc => hequals c (.inr hc)
  have hsplit : split (ascii "=") (chunkOf e) = [e.1, e.2] := by
    have hfirst := split_append_cons (show (61 : UInt8) ∈ ascii "=" by decide)
      (fun c hc => hequals c (.inl hc)) e.2
    rw [hvalue] at hfirst
    rw [chunkOf, List.append_assoc]
    exact hfirst
  rw [fieldValue, hsplit]

/-- A character of a list of chunks separates no path from its arguments. -/
theorem not_question_of_mem_chunks (h : PlainParts path pairs) :
    ∀ c ∈ joinWords 38 (pairs.map chunkOf), c ∉ ascii "?" := by
  intro c hc hmem
  obtain rfl : c = 63 := List.mem_singleton.mp hmem
  rcases mem_joinWords hc with ⟨w, hw, hin⟩ | heq
  · obtain ⟨e, he, rfl⟩ := List.mem_map.mp hw
    have hnot := h.pairs e he 63
    rcases List.mem_append.mp hin with hin | hin
    · rcases List.mem_append.mp hin with hin | hin
      · exact hnot (.inl hin) (by decide)
      · exact absurd hin (by decide)
    · exact hnot (.inr hin) (by decide)
  · exact absurd heq (by decide)

/-- Splitting the URL at its question mark. -/
theorem split_urlOf (h : PlainParts path pairs) :
    split (ascii "?") (urlOf path pairs) = [path, joinWords 38 (pairs.map chunkOf)] := by
  have hfirst := split_append_cons (show (63 : UInt8) ∈ ascii "?" by decide) h.path
    (joinWords 38 (pairs.map chunkOf))
  rw [split_eq_singleton (not_question_of_mem_chunks h)] at hfirst
  rw [urlOf, List.append_assoc]
  exact hfirst

theorem urlPath_urlOf (h : PlainParts path pairs) :
    urlPath (urlOf path pairs) = path := by
  rw [urlPath, split_urlOf h]
  rfl

/-- The chunks of the URL; one that is empty if there are no pairs. -/
theorem urlChunks_urlOf (h : PlainParts path pairs) :
    urlChunks (urlOf path pairs) =
      if pairs = [] then [[]] else pairs.map chunkOf := by
  have hchunks : urlChunks (urlOf path pairs) =
      split (ascii "&") (joinWords 38 (pairs.map chunkOf)) := by
    rw [urlChunks, split_urlOf h]
    rfl
  rw [hchunks]
  split
  · rename_i hnil
    rw [hnil]
    rfl
  · rename_i hne
    refine split_joinWords (fun hnil => hne (List.map_eq_nil_iff.mp hnil)) fun w hw hmem => ?_
    obtain ⟨e, he, rfl⟩ := List.mem_map.mp hw
    have hnot := h.pairs e he 38
    rcases List.mem_append.mp hmem with hin | hin
    · rcases List.mem_append.mp hin with hin | hin
      · exact hnot (.inl hin) (by decide)
      · exact absurd hin (by decide)
    · exact hnot (.inr hin) (by decide)

/-- The texts in the URL are the ones it was made of. -/
theorem urlTexts_urlOf (h : PlainParts path pairs) :
    urlTexts (urlOf path pairs) = pairs := by
  rw [urlTexts, urlChunks_urlOf h]
  split
  · rename_i hnil
    rw [hnil]
    rfl
  · rw [List.filterMap_map]
    refine (List.filterMap_congr fun e he => ?_).trans List.filterMap_some
    exact fieldValue_chunkOf (h.pairs e he)

/-- The URL is short if its texts are. -/
theorem shortUrl_urlOf_iff (h : PlainParts path pairs) :
    ShortUrl (urlOf path pairs) ↔ path.length < 2 ^ 32 ∧ pairs.length < 2 ^ 32 ∧
      ∀ e ∈ pairs, e.1.length < 2 ^ 32 ∧ e.2.length < 2 ^ 32 := by
  have hcount : (urlChunks (urlOf path pairs)).length < 2 ^ 32 ↔
      pairs.length < 2 ^ 32 := by
    rw [urlChunks_urlOf h]
    split
    · rename_i hnil
      rw [hnil]
      decide
    · rw [List.length_map]
  constructor
  · rintro ⟨hp, hc, ht⟩
    rw [urlPath_urlOf h] at hp
    rw [urlTexts_urlOf h] at ht
    exact ⟨hp, hcount.mp hc, ht⟩
  · rintro ⟨hp, hc, ht⟩
    refine ⟨?_, hcount.mpr hc, ?_⟩
    · rw [urlPath_urlOf h]
      exact hp
    · rw [urlTexts_urlOf h]
      exact ht

end Parts

/-! ## Parsing -/

/-- The loop over the chunks assigns the pairs, if it can decode them. -/
theorem parseArgs_eq (vals : List CppString) (args : StringMap) :
    ((∀ e ∈ vals.filterMap fieldValue, e.1.length < 2 ^ 32 ∧ e.2.length < 2 ^ 32) ∧
      parseArgs vals args = .ok (StringMap.assignAll args ((vals.filterMap fieldValue).map
        fun e => (decodeLoop e.1, decodeLoop e.2)))) ∨
    ((∃ e ∈ vals.filterMap fieldValue, ¬ (e.1.length < 2 ^ 32 ∧ e.2.length < 2 ^ 32)) ∧
      parseArgs vals args = .error .diverges) := by
  induction vals generalizing args with
  | nil => exact .inl ⟨nofun, rfl⟩
  | cons val vals ih =>
    rw [parseArgs]
    split
    · rename_i field value hsplit
      have hpair : fieldValue val = some (field, value) := by
        rw [fieldValue, hsplit]
      rw [List.filterMap_cons_some hpair]
      by_cases hshort : field.length < 2 ^ 32 ∧ value.length < 2 ^ 32
      · rw [uriDecode_of_lt hshort.1, uriDecode_of_lt hshort.2]
        rcases ih (StringMap.assign (decodeLoop field) (decodeLoop value) args) with
          ⟨hall, hrun⟩ | ⟨⟨e, he, hlong⟩, hrun⟩
        · exact .inl ⟨List.forall_mem_cons.mpr ⟨hshort, hall⟩, hrun⟩
        · exact .inr ⟨⟨e, List.mem_cons_of_mem _ he, hlong⟩, hrun⟩
      · refine .inr ⟨⟨_, List.mem_cons_self, hshort⟩, ?_⟩
        by_cases hvalue : value.length < 2 ^ 32
        · have hfield : ¬ field.length < 2 ^ 32 := fun h => hshort ⟨h, hvalue⟩
          rw [uriDecode_of_lt hvalue, uriDecode_of_not_lt hfield]
          rfl
        · rw [uriDecode_of_not_lt hvalue]
          rfl
    · rename_i hsplit
      have hnone : fieldValue val = none := by
        rw [fieldValue]
        split
        · rename_i field value heq
          exact absurd heq (hsplit field value)
        · rfl
      rw [List.filterMap_cons_none hnone]
      exact ih args

/-- `URLParser::Parse` as one sequence: without a question mark there are no chunks. -/
theorem parse_eq (url : CppString) (parser : URLParser) :
    parser.parse url = (do
      let path ← uriDecode (urlPath url)
      if (urlChunks url).length < 2 ^ 32 then
        let args ← parseArgs (urlChunks url) parser.args
        return ⟨url, path, args⟩
      else
        throw .diverges) := by
  rw [URLParser.parse]
  split
  · rename_i hsplit
    exact absurd hsplit (split_ne_nil _ _)
  · rename_i ps0 hsplit
    have hpath : urlPath url = ps0 := by rw [urlPath, hsplit]; rfl
    have hchunks : urlChunks url = [] := by rw [urlChunks, hsplit]; rfl
    rw [hpath, hchunks]
    rfl
  · rename_i ps0 ps1 rest hsplit
    have hpath : urlPath url = ps0 := by rw [urlPath, hsplit]; rfl
    have hchunks : urlChunks url = split (ascii "&") ps1 := by rw [urlChunks, hsplit]; rfl
    rw [hpath, hchunks]

/-- A parsed URL leaves its decoded path, and the decoded pairs on top of what was there. -/
theorem parse_of_short {url : CppString} (h : ShortUrl url) (parser : URLParser) :
    parser.parse url =
      .ok ⟨url, decodeLoop (urlPath url), StringMap.assignAll parser.args (urlPairs url)⟩ := by
  rw [parse_eq, uriDecode_of_lt h.path, ok_bind, if_pos h.chunks]
  rcases parseArgs_eq (urlChunks url) parser.args with ⟨-, hrun⟩ | ⟨⟨e, he, hlong⟩, -⟩
  · rw [hrun]
    rfl
  · exact absurd (h.texts e he) hlong

/-- A URL that is too long is never parsed. -/
theorem parse_of_not_short {url : CppString} (h : ¬ ShortUrl url) (parser : URLParser) :
    parser.parse url = .error .diverges := by
  rw [parse_eq]
  by_cases hpath : (urlPath url).length < 2 ^ 32
  · rw [uriDecode_of_lt hpath, ok_bind]
    by_cases hchunks : (urlChunks url).length < 2 ^ 32
    · rw [if_pos hchunks]
      rcases parseArgs_eq (urlChunks url) parser.args with ⟨hall, -⟩ | ⟨-, hrun⟩
      · exact absurd ⟨hpath, hchunks, hall⟩ h
      · rw [hrun]
        rfl
    · rw [if_neg hchunks]
      rfl
  · rw [uriDecode_of_not_lt hpath]
    rfl

/-- A URL is parsed exactly if it is short. -/
theorem parse_ok_iff {url : CppString} {parser parser' : URLParser} :
    parser.parse url = .ok parser' ↔ ShortUrl url ∧
      ⟨url, decodeLoop (urlPath url), StringMap.assignAll parser.args (urlPairs url)⟩ =
        parser' := by
  by_cases h : ShortUrl url
  · rw [parse_of_short h, Except.ok.injEq]
    exact ⟨fun heq => ⟨h, heq⟩, And.right⟩
  · rw [parse_of_not_short h]
    exact ⟨nofun, fun hs => absurd hs.1 h⟩

end MultithreadedWebServer
