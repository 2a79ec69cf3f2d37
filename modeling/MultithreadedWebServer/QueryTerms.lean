import Mathlib.Data.Bool.AllAny
import MultithreadedWebServer.HttpServer
import MultithreadedWebServer.UrlParsing

/-!
# The words of a query

The search form sends its words joined by plus signs. `URLParser::Parse` decodes the
value, and that turns a plus sign into a space; `ProcessQueryRequest` splits at plus signs
afterwards and finds none. So it asks for one string, with the words and the spaces in it.
-/

namespace MultithreadedWebServer

/-! ## What the form sends and what is asked for -/

/-- A word of ASCII letters. -/
def IsWord (w : CppString) : Prop := w ≠ [] ∧ ∀ c ∈ w, isAlpha c = true

/-- The URI for some words. -/
def queryUri (words : List CppString) : CppString :=
  ascii "/query?terms=" ++ joinWords 43 words

/-- `boost::to_lower` on a string. -/
def lowerCase (w : CppString) : CppString := w.map toLower

/-- The request for a URI is answered by calling `ProcessQuery` with these words. -/
def AsksFor (uri : CppString) (words : List CppString) : Prop :=
  ∀ site : Site, processQueryRequest site uri = do
    let retQr ← site.processQuery words
    return queryPage (resultsPart (trim words.flatten) retQr)

/-- A site that finds nothing for some words, and knows no others. -/
def onlySite (words : List CppString) : Site where
  basedir := []
  fs := ⟨fun _ => none, fun _ => ⟨false, false, 0, false, []⟩⟩
  processQuery := fun queries => if queries = words then pure [] else Run.stop .fault

/-- What is asked for is determined by the URI. -/
theorem AsksFor.unique {uri : CppString} {words words' : List CppString} (h : AsksFor uri words)
    (h' : AsksFor uri words') : words = words' := by
  by_contra hne
  have heq := congrFun ((h (onlySite words)).symm.trans (h' (onlySite words))) []
  simp only [onlySite, if_neg (Ne.symm hne), if_true] at heq
  cases heq

/-- A request that never gets an answer asks for nothing. -/
theorem AsksFor.not_stop {uri : CppString} {words : List CppString} (h : AsksFor uri words)
    {e : Stop} : processQueryRequest (onlySite words) uri ≠ Run.stop e := by
  intro hstop
  have heq := congrFun ((h (onlySite words)).symm.trans hstop) []
  simp only [onlySite, if_true] at heq
  cases heq

/-! ## The three stages -/

theorem isAlpha_not_delimiter {c : UInt8} (h : isAlpha c = true) :
    c ≠ 37 ∧ c ≠ 38 ∧ c ≠ 43 ∧ c ≠ 61 ∧ c ≠ 63 := by
  refine ⟨?_, ?_, ?_, ?_, ?_⟩
  all_goals
    rintro rfl
    revert h
    decide

/-- A character of the value is a letter or a plus sign. -/
theorem isAlpha_or_eq_of_mem {words : List CppString} (hwords : ∀ w ∈ words, IsWord w) {c d : UInt8}
    (h : d ∈ joinWords c words) : isAlpha d = true ∨ d = c := by
  rcases mem_joinWords h with ⟨w, hw, hd⟩ | hd
  · exact .inl ((hwords w hw).2 d hd)
  · exact .inr hd

section Stages

variable {words : List CppString}

/-- Decoding puts spaces between the words. -/
theorem map_joinWords (hwords : ∀ w ∈ words, IsWord w) :
    ((joinWords 43 words).map fun c => if c = 43 then 32 else c) = joinWords 32 words := by
  induction words with
  | nil => rfl
  | cons w words ih =>
    have hw : (w.map fun c : UInt8 => if c = 43 then 32 else c) = w := by
      rw [List.map_congr_left (g := id) fun c hc => ?_, List.map_id]
      exact if_neg (isAlpha_not_delimiter ((hwords w List.mem_cons_self).2 c hc)).2.2.1
    cases words with
    | nil =>
      rw [joinWords, joinWords, List.intercalate_singleton, List.intercalate_singleton]
      exact hw
    | cons w' words =>
      have hrest := ih fun w hw => hwords w (List.mem_cons_of_mem _ hw)
      rw [joinWords] at hrest ⊢
      rw [List.intercalate_cons_cons, List.map_append, List.map_append, hw, hrest, joinWords,
        joinWords, List.intercalate_cons_cons]
      rfl

/-- Nothing in the value ends it, and it has no escape sequence. -/
theorem mem_value (hwords : ∀ w ∈ words, IsWord w) {d : UInt8} (hd : d ∈ joinWords 43 words) :
    d ≠ 37 ∧ d ≠ 38 ∧ d ≠ 61 ∧ d ≠ 63 := by
  rcases isAlpha_or_eq_of_mem hwords hd with h | rfl
  · have hne := isAlpha_not_delimiter h
    exact ⟨hne.1, hne.2.1, hne.2.2.2.1, hne.2.2.2.2⟩
  · decide

/-- The URI is put together from a path and one pair. -/
theorem queryUri_eq (words : List CppString) :
    queryUri words = urlOf (ascii "/query") [(ascii "terms", joinWords 43 words)] := by
  have htext : ascii "/query?terms=" =
      ascii "/query" ++ ascii "?" ++ (ascii "terms" ++ ascii "=") := by decide
  rw [queryUri, urlOf, List.map_singleton, joinWords, joinWords, List.intercalate_singleton,
    chunkOf, htext, List.append_assoc]

theorem plainParts_queryUri (hwords : ∀ w ∈ words, IsWord w) :
    PlainParts (ascii "/query") [(ascii "terms", joinWords 43 words)] where
  path := List.all_iff_forall_prop.mp (by decide)
  pairs := by
    refine List.forall_mem_singleton.mpr fun c hc hsep => ?_
    rcases hc with hc | hc
    · have hplain : ∀ d ∈ ascii "terms", d ∉ ascii "?&=" := List.all_iff_forall_prop.mp (by decide)
      exact hplain c hc hsep
    · obtain ⟨-, hand, hequals, hquestion⟩ := mem_value hwords hc
      have hcases : c = 63 ∨ c = 38 ∨ c = 61 := by simpa [ascii] using hsep
      rcases hcases with heq | heq | heq
      · exact hquestion heq
      · exact hand heq
      · exact hequals heq

/-- Only the value can be too long. -/
theorem shortUrl_queryUri (hwords : ∀ w ∈ words, IsWord w) :
    ShortUrl (queryUri words) ↔ (joinWords 43 words).length < 2 ^ 32 := by
  have hpath : (ascii "/query").length < 2 ^ 32 := by decide
  have hfield : (ascii "terms").length < 2 ^ 32 := by decide
  rw [queryUri_eq, shortUrl_urlOf_iff (plainParts_queryUri hwords), List.forall_mem_singleton,
    List.length_singleton]
  constructor
  · rintro ⟨-, -, -, hvalue⟩
    exact hvalue
  · intro hvalue
    exact ⟨hpath, by decide, hfield, hvalue⟩

/-- `URLParser::Parse` of such a URI: the value is decoded, if its length is one that the
index of `URIDecode` reaches. -/
theorem parse_queryUri (hwords : ∀ w ∈ words, IsWord w) :
    URLParser.new.parse (queryUri words) =
      if (joinWords 43 words).length < 2 ^ 32 then
        .ok ⟨queryUri words, ascii "/query", [(ascii "terms", joinWords 32 words)]⟩
      else .error .diverges := by
  have hpercent : (37 : UInt8) ∉ joinWords 43 words := fun h => (mem_value hwords h).1 rfl
  have hpairs : urlPairs (queryUri words) = [(ascii "terms", joinWords 32 words)] := by
    rw [urlPairs, queryUri_eq, urlTexts_urlOf (plainParts_queryUri hwords), List.map_singleton,
      decodeLoop_of_noPercent hpercent, map_joinWords hwords]
    rfl
  have hpath : urlPath (queryUri words) = ascii "/query" := by
    rw [queryUri_eq, urlPath_urlOf (plainParts_queryUri hwords)]
  split
  · rename_i hlen
    rw [parse_of_short ((shortUrl_queryUri hwords).mpr hlen), hpath, hpairs]
    rfl
  · rename_i hlen
    exact parse_of_not_short (fun h => hlen ((shortUrl_queryUri hwords).mp h)) _

/-- All words come to one string, with spaces. -/
theorem processQueryRequest_queryUri (hwords : ∀ w ∈ words, IsWord w) (site : Site) :
    processQueryRequest site (queryUri words) =
      if (joinWords 43 words).length < 2 ^ 32 then do
        let retQr ← site.processQuery [lowerCase (joinWords 32 words)]
        return queryPage (resultsPart (trim [lowerCase (joinWords 32 words)].flatten) retQr)
      else Run.stop .diverges := by
  have hfound : (findSub (ascii "query?terms") (queryUri words)).isSome = true := by
    have hstart : findSub (ascii "query?terms") (ascii "/query?terms=") = some 1 := by decide
    rw [queryUri, findSub_append (by decide) _ hstart]
    rfl
  have hplus : ∀ c ∈ joinWords 32 words, c ∉ ascii "+" := by
    intro c hc hp
    obtain rfl : c = 43 := List.mem_singleton.mp hp
    rcases isAlpha_or_eq_of_mem hwords hc with h | h <;> revert h <;> decide
  rw [processQueryRequest, if_pos hfound, parse_queryUri hwords]
  split
  · have hterms : StringMap.find? [(ascii "terms", joinWords 32 words)] (ascii "terms") =
        some (joinWords 32 words) := rfl
    rw [Run.lift_ok, Run.pure_bind, hterms]
    dsimp only
    rw [splitCompress_eq_singleton hplus]
    rfl
  · rfl

/-- What the request asks for, if its value is short enough to be decoded. -/
theorem asksFor_queryUri (hwords : ∀ w ∈ words, IsWord w)
    (hlen : (joinWords 43 words).length < 2 ^ 32) :
    AsksFor (queryUri words) [lowerCase (joinWords 32 words)] := by
  intro site
  rw [processQueryRequest_queryUri hwords, if_pos hlen]

/-- The words of a query reach the index as they are, in lower case, exactly if there is one
word, of fewer characters than the index of `URIDecode` can count. -/
theorem query_words_reach_index_iff (hne : words ≠ []) (hwords : ∀ w ∈ words, IsWord w) :
    AsksFor (queryUri words) (words.map lowerCase) ↔
      words.length = 1 ∧ (joinWords 43 words).length < 2 ^ 32 := by
  constructor
  · intro h
    by_cases hlen : (joinWords 43 words).length < 2 ^ 32
    · have hone := congrArg List.length (h.unique (asksFor_queryUri hwords hlen))
      rw [List.length_map, List.length_singleton] at hone
      exact ⟨hone, hlen⟩
    · have hstop := processQueryRequest_queryUri hwords (onlySite (words.map lowerCase))
      rw [if_neg hlen] at hstop
      exact absurd hstop h.not_stop
  · rintro ⟨hone, hlen⟩
    obtain ⟨w, rfl⟩ := List.length_eq_one_iff.mp hone
    have hasks := asksFor_queryUri hwords hlen
    rw [joinWords, List.intercalate_singleton] at hasks
    exact hasks

/-- One word. -/
theorem query_words_reach_index_iff_one :
    AsksFor (ascii "/query?terms=Hello") [ascii "hello"] := by
  have hword : ∀ w ∈ [ascii "Hello"], IsWord w := by
    simp only [List.mem_singleton, forall_eq]
    exact ⟨by decide, List.all_iff_forall_prop.mp (by decide)⟩
  exact (query_words_reach_index_iff (List.cons_ne_nil _ _) hword).mpr ⟨rfl, by decide⟩

/-- Two words are asked for as one string with a space. -/
theorem two_words_one_string : ¬ AsksFor (ascii "/query?terms=a+b") [ascii "a", ascii "b"] := by
  intro h
  have heq := congrFun (h (onlySite [ascii "a", ascii "b"])) []
  have hfault : processQueryRequest (onlySite [ascii "a", ascii "b"])
      (ascii "/query?terms=a+b") [] = .error .fault := rfl
  rw [hfault] at heq
  cases heq

end Stages

end MultithreadedWebServer
