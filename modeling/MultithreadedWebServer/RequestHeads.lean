import Mathlib.Data.Bool.AllAny
import MultithreadedWebServer.RequestFraming
import MultithreadedWebServer.StringMaps
import MultithreadedWebServer.StringTokens

/-!
# What `ParseRequest` reads in a request header

A request header is a request line, header lines and an empty line. Splitting at any of
`:` and space finds the name of a header, but of its value only the first word; and a line
without either has no second token at all, which is not checked.
-/

namespace MultithreadedWebServer

/-! ## Trimming the end -/

section Trim

variable {s t : CppString}

theorem trimRight_append_of_ne_nil (s : CppString) (h : trimRight t ≠ []) :
    trimRight (s ++ t) = s ++ trimRight t := by
  have hne : (t.reverse.dropWhile isSpace).isEmpty = false := by
    rw [List.isEmpty_eq_false_iff]
    intro hnil
    apply h
    rw [trimRight, hnil]
    rfl
  rw [trimRight, List.reverse_append, List.dropWhile_append, hne, if_neg Bool.false_ne_true,
    List.reverse_append, List.reverse_reverse]
  rfl

theorem trimRight_append_of_eq_nil (s : CppString) (h : trimRight t = []) :
    trimRight (s ++ t) = trimRight s := by
  have hnil : (t.reverse.dropWhile isSpace).isEmpty = true := by
    rw [List.isEmpty_iff]
    exact List.reverse_eq_nil_iff.mp h
  rw [trimRight, List.reverse_append, List.dropWhile_append, hnil, if_pos rfl]
  rfl

theorem mem_of_mem_trimRight {c : UInt8} (h : c ∈ trimRight s) : c ∈ s :=
  List.mem_reverse.mp (List.dropWhile_subset isSpace (List.mem_reverse.mp h))

/-- A string that does not end in whitespace stays. -/
theorem trimRight_eq_self (h : ∀ c ∈ s.getLast?, isSpace c = false) : trimRight s = s := by
  have hself : s.reverse.dropWhile isSpace = s.reverse := by
    rw [List.dropWhile_eq_self_iff]
    intro hlen hspace
    rw [← List.head_eq_getElem_zero (List.ne_nil_of_length_pos hlen), List.head_reverse] at hspace
    have hlast := h _ (List.getLast?_eq_getLast_of_ne_nil (List.reverse_ne_nil_iff.mp
      (List.ne_nil_of_length_pos hlen)))
    rw [hlast] at hspace
    cases hspace
  rw [trimRight, hself, List.reverse_reverse]

end Trim

/-! ## Request headers -/

/-- A request header. -/
structure RequestHead where
  /-- the method -/
  method : CppString
  /-- the URI -/
  uri : CppString
  /-- the protocol -/
  protocol : CppString
  /-- names and values of the headers -/
  headers : List (CppString × CppString)

namespace RequestHead

/-- `METHOD URI PROTOCOL`. -/
def requestLine (head : RequestHead) : CppString :=
  head.method ++ ascii " " ++ head.uri ++ ascii " " ++ head.protocol

/-- `name: value`. -/
def headerLine (e : CppString × CppString) : CppString := e.1 ++ ascii ": " ++ e.2

/-- Lines, each with its end, and the empty line. -/
def closedLines (lines : List CppString) : CppString := lines.flatMap (· ++ crlf) ++ crlf

/-- The text of a request header. -/
def text (head : RequestHead) : CppString :=
  closedLines (head.requestLine :: head.headers.map headerLine)

/-- The lower-case names with the values. -/
def fields (head : RequestHead) : List (CppString × CppString) :=
  head.headers.map fun e => (e.1.map toLower, e.2)

/-- No separator is part of a token of the request line. -/
def Token (s : CppString) : Prop := ∀ c ∈ s, c ∉ ascii " \r\n"

/-- No separator is part of the name of a header. -/
def HeaderName (s : CppString) : Prop := ∀ c ∈ s, c ∉ ascii ": \r\n"

/-- The value of a header: one line, not empty, without whitespace at its ends. -/
structure HeaderValue (s : CppString) : Prop where
  /-- it is one line -/
  oneLine : ∀ c ∈ s, c ∉ crlf
  /-- it is not empty -/
  ne : s ≠ []
  /-- no whitespace before it -/
  front : ∀ c ∈ s.head?, isSpace c = false
  /-- nor after it -/
  back : ∀ c ∈ s.getLast?, isSpace c = false

/-- The parts of the header do not contain what separates them. -/
structure WellFormed (head : RequestHead) : Prop where
  /-- the method -/
  method : Token head.method
  /-- the URI -/
  uri : Token head.uri
  /-- the protocol -/
  protocol : Token head.protocol
  /-- the headers -/
  headers : ∀ e ∈ head.headers, HeaderName e.1 ∧ HeaderValue e.2

end RequestHead

/-! ## Lines -/

theorem not_mem_crlf_of_token {s : CppString} (h : RequestHead.Token s) : ∀ c ∈ s, c ∉ crlf := by
  intro c hc hin
  have hsub : crlf ⊆ ascii " \r\n" := by decide
  exact h c hc (hsub hin)

theorem not_mem_space_of_token {s : CppString} (h : RequestHead.Token s) :
    ∀ c ∈ s, c ∉ ascii " " := by
  intro c hc hin
  have hsub : ascii " " ⊆ ascii " \r\n" := by decide
  exact h c hc (hsub hin)

/-- Splitting into lines finds the lines; what is left after the last is empty. -/
theorem splitCompress_closedLines {line : CppString} {lines : List CppString}
    (hone : ∀ l ∈ line :: lines, ∀ c ∈ l, c ∉ crlf) (hne : ∀ l ∈ lines, l ≠ []) :
    splitCompress crlf (RequestHead.closedLines (line :: lines)) = line :: lines ++ [[]] := by
  induction lines generalizing line with
  | nil =>
    have hline := hone line List.mem_cons_self
    have hrun : ∀ c ∈ crlf ++ crlf, c ∈ crlf := by simp
    have hsplit : splitCompress crlf (line ++ (crlf ++ crlf) ++ []) =
        line :: splitCompress crlf [] := splitCompress_append hline hrun (by decide) nofun
    rw [List.append_nil] at hsplit
    rw [RequestHead.closedLines, List.flatMap_singleton, List.append_assoc, hsplit]
    rfl
  | cons next lines ih =>
    obtain ⟨hline, hlines⟩ := List.forall_mem_cons.mp hone
    obtain ⟨hnext, hrest⟩ := List.forall_mem_cons.mp hne
    obtain ⟨c, next, rfl⟩ := List.exists_cons_of_ne_nil hnext
    have hc : c ∉ crlf := hlines _ List.mem_cons_self c List.mem_cons_self
    have hhead : ∀ d ∈ (RequestHead.closedLines ((c :: next) :: lines)).head?, d ∉ crlf := by
      intro d hd
      obtain rfl : c = d := Option.some.inj hd
      exact hc
    have hrun : ∀ d ∈ crlf, d ∈ crlf := fun _ h => h
    have hsplit := splitCompress_append hline hrun (by decide) hhead
    have hcons : RequestHead.closedLines (line :: (c :: next) :: lines) =
        line ++ crlf ++ RequestHead.closedLines ((c :: next) :: lines) := by
      rw [RequestHead.closedLines, List.flatMap_cons, List.append_assoc]
      rfl
    rw [hcons, hsplit, ih hlines hrest]
    rfl

/-! ## The request line -/

section RequestLine

variable {s t : CppString}

theorem split_two_tokens (hs : ∀ c ∈ s, c ∉ ascii " ") (ht : ∀ c ∈ t, c ∉ ascii " ")
    (run : CppString) (hrun : ∀ c ∈ run, c ∈ ascii " ") :
    splitCompress (ascii " ") (s ++ (ascii " " ++ run) ++ t) = [s, t] := by
  have hhead : ∀ c ∈ t.head?, c ∉ ascii " " := fun c hc => ht c (List.mem_of_mem_head? hc)
  have hall : ∀ c ∈ ascii " " ++ run, c ∈ ascii " " := by
    intro c hc
    rcases List.mem_append.mp hc with hc | hc
    · exact hc
    · exact hrun c hc
  rw [splitCompress_append hs hall (List.append_ne_nil_of_left_ne_nil (by decide) _) hhead,
    splitCompress_eq_singleton ht]

theorem not_mem_trimRight (hs : ∀ c ∈ s, c ∉ ascii " ") : ∀ c ∈ trimRight s, c ∉ ascii " " :=
  fun c hc => hs c (mem_of_mem_trimRight hc)

theorem split_three_tokens {u : CppString} (hs : ∀ c ∈ s, c ∉ ascii " ")
    (ht : ∀ c ∈ t, c ∉ ascii " ") (hu : ∀ c ∈ u, c ∉ ascii " ") (hne : t ≠ []) :
    splitCompress (ascii " ") (s ++ ascii " " ++ t ++ ascii " " ++ u) = [s, t, u] := by
  have hhead : ∀ c ∈ (t ++ ascii " " ++ u).head?, c ∉ ascii " " := by
    intro c hc
    rw [List.append_assoc, List.head?_append_of_ne_nil _ hne] at hc
    exact ht c (List.mem_of_mem_head? hc)
  have hlast := split_two_tokens ht hu [] nofun
  rw [List.append_nil] at hlast
  have hrun : ∀ c ∈ ascii " ", c ∈ ascii " " := fun _ hc => hc
  have hfirst := splitCompress_append hs hrun (by decide) hhead
  have hassoc : s ++ ascii " " ++ t ++ ascii " " ++ u =
      s ++ ascii " " ++ (t ++ ascii " " ++ u) := by
    simp only [List.append_assoc]
  rw [hassoc, hfirst, hlast]

/-- A protocol of whitespace is trimmed, with the space before it, and then the URI is. -/
theorem second_of_blankProtocol {head : RequestHead} (h : head.WellFormed)
    (hp : trimRight head.protocol = []) :
    (splitCompress (ascii " ") (trimRight head.requestLine))[1]? = some head.uri ↔
      head.uri ≠ [] ∧ trimRight head.uri = head.uri := by
  have hmethod := not_mem_space_of_token h.method
  have huri := not_mem_space_of_token h.uri
  have hline : trimRight head.requestLine =
      trimRight (head.method ++ ascii " " ++ head.uri) := by
    rw [RequestHead.requestLine, trimRight_append_of_eq_nil _ hp,
      trimRight_append_of_eq_nil _ (by decide)]
  by_cases hu : trimRight head.uri = []
  · have hgone : trimRight head.requestLine = trimRight head.method := by
      rw [hline, trimRight_append_of_eq_nil _ hu, trimRight_append_of_eq_nil _ (by decide)]
    rw [hgone, splitCompress_eq_singleton (not_mem_trimRight hmethod)]
    refine iff_of_false ?_ ?_
    · intro hnone
      cases hnone
    · rintro ⟨hne, hself⟩
      exact hne (hself.symm.trans hu)
  · have hsplit := split_two_tokens hmethod (not_mem_trimRight huri) [] nofun
    rw [List.append_nil] at hsplit
    rw [hline, trimRight_append_of_ne_nil _ hu, hsplit]
    constructor
    · intro hsome
      have hself : trimRight head.uri = head.uri := Option.some.inj hsome
      exact ⟨hself ▸ hu, hself⟩
    · rintro ⟨-, hself⟩
      exact congrArg some hself

/-- With another protocol the URI keeps its whitespace. -/
theorem second_of_protocol {head : RequestHead} (h : head.WellFormed)
    (hp : trimRight head.protocol ≠ []) :
    (splitCompress (ascii " ") (trimRight head.requestLine))[1]? = some head.uri ↔
      head.uri ≠ [] := by
  have hmethod := not_mem_space_of_token h.method
  have huri := not_mem_space_of_token h.uri
  have hprotocol := not_mem_trimRight (not_mem_space_of_token h.protocol)
  rw [RequestHead.requestLine, trimRight_append_of_ne_nil _ hp]
  by_cases hu : head.uri = []
  · have hrun : ∀ c ∈ ascii " ", c ∈ ascii " " := fun _ hc => hc
    rw [hu, List.append_nil, List.append_assoc head.method,
      split_two_tokens hmethod hprotocol (ascii " ") hrun]
    refine iff_of_false ?_ fun hne => hne rfl
    intro hsome
    exact hp (Option.some.inj hsome)
  · rw [split_three_tokens hmethod huri hprotocol hu]
    exact iff_of_true rfl hu

/-- The second token is the URI, unless that is empty or the trimming of the line has
reached it. -/
theorem second_requestLine_iff {head : RequestHead} (h : head.WellFormed) :
    (splitCompress (ascii " ") (trimRight head.requestLine))[1]? = some head.uri ↔
      head.uri ≠ [] ∧ (trimRight head.uri = head.uri ∨ trimRight head.protocol ≠ []) := by
  by_cases hp : trimRight head.protocol = []
  · rw [second_of_blankProtocol h hp]
    simp [hp]
  · rw [second_of_protocol h hp]
    simp [hp]

end RequestLine

/-! ## Header lines -/

/-- The first word of a value: what is left of it when it is split at colons and spaces. -/
def firstWord (value : CppString) : CppString :=
  (value.dropWhile (· ∈ ascii ": ")).takeWhile (· ∉ ascii ": ")

/-- A value is its first word exactly if it has neither a colon nor a space. -/
theorem firstWord_eq_self_iff (value : CppString) :
    firstWord value = value ↔ (58 : UInt8) ∉ value ∧ (32 : UInt8) ∉ value := by
  have hdelim : ∀ c : UInt8, c ∈ ascii ": " ↔ c = 58 ∨ c = 32 := by
    intro c
    rw [show ascii ": " = [58, 32] from rfl, List.mem_pair]
  constructor
  · intro heq
    have hnone : ∀ c ∈ value, c ∉ ascii ": " := by
      intro c hc
      rw [← heq, firstWord] at hc
      have hnot := List.mem_takeWhile_imp hc
      simpa using hnot
    constructor
    · intro hc
      exact hnone _ hc ((hdelim _).mpr (.inl rfl))
    · intro hc
      exact hnone _ hc ((hdelim _).mpr (.inr rfl))
  · rintro ⟨hcolon, hspace⟩
    have hnone : ∀ c ∈ value, c ∉ ascii ": " := by
      intro c hc hin
      rcases (hdelim c).mp hin with rfl | rfl
      · exact hcolon hc
      · exact hspace hc
    have hdrop : value.dropWhile (· ∈ ascii ": ") = value := by
      cases value with
      | nil => rfl
      | cons c value =>
        exact List.dropWhile_cons_of_neg (by simpa using hnone c List.mem_cons_self)
    rw [firstWord, hdrop, List.takeWhile_eq_self_iff]
    intro c hc
    exact decide_eq_true (hnone c hc)

/-- The tokens of a header line: its name, the first word of its value, and others. -/
theorem split_headerLine {e : CppString × CppString} (hname : RequestHead.HeaderName e.1) :
    ∃ tokens, splitCompress (ascii ": ") (RequestHead.headerLine e) =
      e.1 :: firstWord e.2 :: tokens := by
  have hfirst : ∀ c ∈ e.1, c ∉ ascii ": " := by
    intro c hc hin
    have hsub : ascii ": " ⊆ ascii ": \r\n" := by decide
    exact hname c hc (hsub hin)
  have hrun : ∀ c ∈ ascii ": " ++ e.2.takeWhile (· ∈ ascii ": "), c ∈ ascii ": " := by
    intro c hc
    rcases List.mem_append.mp hc with hc | hc
    · exact hc
    · have hin := List.mem_takeWhile_imp hc
      simpa using hin
  have hrest : ∀ c ∈ (e.2.dropWhile (· ∈ ascii ": ")).head?, c ∉ ascii ": " := by
    intro c hc
    have hnot := List.head?_dropWhile_not (· ∈ ascii ": ") e.2
    rw [Option.mem_def.mp hc] at hnot
    simpa using hnot
  have hline : RequestHead.headerLine e = e.1 ++ (ascii ": " ++ e.2.takeWhile (· ∈ ascii ": ")) ++
      e.2.dropWhile (· ∈ ascii ": ") := by
    rw [RequestHead.headerLine, List.append_assoc, List.append_assoc, List.append_assoc,
      List.takeWhile_append_dropWhile]
  obtain ⟨tokens, htokens⟩ := head_splitCompress (ascii ": ") (e.2.dropWhile (· ∈ ascii ": "))
  refine ⟨tokens, ?_⟩
  rw [hline, splitCompress_append hfirst hrun
    (List.append_ne_nil_of_left_ne_nil (by decide) _) hrest, htokens]
  rfl

/-- A header line does not end in whitespace. -/
theorem trimRight_headerLine {e : CppString × CppString} (h : RequestHead.HeaderValue e.2) :
    trimRight (RequestHead.headerLine e) = RequestHead.headerLine e := by
  have hself := trimRight_eq_self h.back
  rw [RequestHead.headerLine, trimRight_append_of_ne_nil _ (by rw [hself]; exact h.ne), hself]

/-- The loop over the header lines keeps the first word of each value. -/
theorem parseHeaders_headerLines {headers : List (CppString × CppString)}
    (h : ∀ e ∈ headers, RequestHead.HeaderName e.1) (m : StringMap) :
    parseHeaders (headers.map RequestHead.headerLine) m =
      .ok (StringMap.assignAll m (headers.map fun e => (e.1.map toLower, firstWord e.2))) := by
  induction headers generalizing m with
  | nil => rfl
  | cons e headers ih =>
    obtain ⟨hname, hheaders⟩ := List.forall_mem_cons.mp h
    obtain ⟨tokens, htokens⟩ := split_headerLine hname
    rw [List.map_cons, parseHeaders, htokens]
    exact ih hheaders _

/-- `ParseRequest` finds the URI of the header and each header's last value, and nothing
else; what comes after the header in the buffer does not matter. -/
def ReadBack (head : RequestHead) (rest : CppString) : Prop :=
  ∃ request, parseRequest ⟨head.text ++ rest⟩ head.text.length = .ok request ∧
    request.uri = head.uri ∧
    ∀ key, StringMap.find? request.headers key = StringMap.lastValue head.fields key

section ReadBack

variable {head : RequestHead}

/-- The lines of a request header, trimmed. -/
theorem lines_text (h : head.WellFormed) :
    (splitCompress crlf head.text).map trimRight =
      trimRight head.requestLine :: head.headers.map RequestHead.headerLine ++ [[]] := by
  have hline : ∀ c ∈ head.requestLine, c ∉ crlf := by
    intro c hc
    have hspace : ∀ c ∈ ascii " ", c ∉ crlf := List.all_iff_forall_prop.mp (by decide)
    rw [RequestHead.requestLine] at hc
    simp only [List.mem_append] at hc
    rcases hc with (((hc | hc) | hc) | hc) | hc
    · exact not_mem_crlf_of_token h.method c hc
    · exact hspace c hc
    · exact not_mem_crlf_of_token h.uri c hc
    · exact hspace c hc
    · exact not_mem_crlf_of_token h.protocol c hc
  have hheader : ∀ l ∈ head.headers.map RequestHead.headerLine, ∀ c ∈ l, c ∉ crlf := by
    intro l hl c hc
    obtain ⟨e, he, rfl⟩ := List.mem_map.mp hl
    obtain ⟨hname, hvalue⟩ := h.headers e he
    have hsub : crlf ⊆ ascii ": \r\n" := by decide
    have hseparator : ∀ c ∈ ascii ": ", c ∉ crlf := List.all_iff_forall_prop.mp (by decide)
    rw [RequestHead.headerLine] at hc
    simp only [List.mem_append] at hc
    rcases hc with (hc | hc) | hc
    · exact fun hin => hname c hc (hsub hin)
    · exact hseparator c hc
    · exact hvalue.oneLine c hc
  have hne : ∀ l ∈ head.headers.map RequestHead.headerLine, l ≠ [] := by
    intro l hl
    obtain ⟨e, -, rfl⟩ := List.mem_map.mp hl
    simp [RequestHead.headerLine, ascii]
  have htrim : (head.headers.map RequestHead.headerLine).map trimRight =
      head.headers.map RequestHead.headerLine := by
    rw [List.map_map]
    exact List.map_congr_left fun e he => trimRight_headerLine (h.headers e he).2
  rw [RequestHead.text, splitCompress_closedLines (List.forall_mem_cons.mpr ⟨hline, hheader⟩) hne,
    List.map_append, List.map_cons, htrim]
  rfl

/-- What `ParseRequest` makes of a request header. -/
theorem parseRequest_text (h : head.WellFormed) (rest : CppString) :
    parseRequest ⟨head.text ++ rest⟩ head.text.length =
      match (splitCompress (ascii " ") (trimRight head.requestLine))[1]? with
      | none => .error .exception
      | some uri => .ok ⟨uri, StringMap.ofPairs
          (head.fields.map fun e => (e.1, firstWord e.2))⟩ := by
  have hheaders := parseHeaders_headerLines (fun e he => (h.headers e he).1) []
  have hfields : (head.fields.map fun e => (e.1, firstWord e.2)) =
      head.headers.map fun e => (e.1.map toLower, firstWord e.2) := by
    rw [RequestHead.fields, List.map_map]
    rfl
  have htail : (head.headers.map RequestHead.headerLine ++ [[]]).dropLast =
      head.headers.map RequestHead.headerLine := List.dropLast_concat
  rw [parseRequest, List.take_left, lines_text h, hfields]
  cases hsecond : (splitCompress (ascii " ") (trimRight head.requestLine))[1]? with
  | none =>
    simp only [List.cons_append, List.headD_cons, hsecond]
    rfl
  | some uri =>
    simp only [List.cons_append, List.headD_cons, hsecond, List.drop_succ_cons, List.drop_zero,
      htail, hheaders]
    rfl

/-- The header is read back exactly if the request line still has a URI once it is trimmed
and split, and the last value of each name has neither a colon nor a space. -/
theorem request_head_read_back_iff (h : head.WellFormed) (rest : CppString) :
    ReadBack head rest ↔
      (head.uri ≠ [] ∧ (trimRight head.uri = head.uri ∨ trimRight head.protocol ≠ [])) ∧
      ∀ key, ∀ value ∈ StringMap.lastValue head.fields key,
        (58 : UInt8) ∉ value ∧ (32 : UInt8) ∉ value := by
  -- the values differ where a first word differs from the value
  have hvalues : (∀ key, StringMap.find? (StringMap.ofPairs
        (head.fields.map fun e => (e.1, firstWord e.2))) key =
        StringMap.lastValue head.fields key) ↔
      ∀ key, ∀ value ∈ StringMap.lastValue head.fields key,
        (58 : UInt8) ∉ value ∧ (32 : UInt8) ∉ value := by
    refine forall_congr' fun key => ?_
    rw [StringMap.find?_ofPairs, StringMap.lastValue_map]
    cases StringMap.lastValue head.fields key with
    | none => simp
    | some value => simp [firstWord_eq_self_iff]
  rw [← second_requestLine_iff h, ← hvalues, ReadBack, parseRequest_text h rest]
  cases hsecond : (splitCompress (ascii " ") (trimRight head.requestLine))[1]? with
  | none => simp
  | some uri =>
    constructor
    · rintro ⟨request, hparse, huri, hheaders⟩
      obtain rfl := Except.ok.inj hparse
      exact ⟨congrArg some huri, hheaders⟩
    · rintro ⟨huri, hheaders⟩
      exact ⟨_, rfl, Option.some.inj huri, hheaders⟩

/-- A request for a page; the name of its header is in upper and lower case. -/
def hostHead (host : CppString) : RequestHead where
  method := ascii "GET"
  uri := ascii "/"
  protocol := ascii "HTTP/1.1"
  headers := [(ascii "Host", host)]

/-- A text without whitespace is a value. -/
theorem headerValue_of_word {s : CppString} (hne : s ≠ [])
    (h : (s.all fun c => isSpace c = false) = true) : RequestHead.HeaderValue s := by
  have hspace : ∀ c ∈ s, isSpace c = false := List.all_iff_forall_prop.mp h
  refine ⟨?_, hne, ?_, ?_⟩
  · intro c hc hin
    have hcrlf : ∀ d ∈ crlf, isSpace d = true := List.all_iff_forall_prop.mp (by decide)
    exact Bool.false_ne_true ((hspace c hc).symm.trans (hcrlf c hin))
  · intro c hc
    exact hspace c (List.mem_of_mem_head? hc)
  · intro c hc
    exact hspace c (List.mem_of_mem_getLast? hc)

theorem wellFormed_hostHead {host : CppString} (h : RequestHead.HeaderValue host) :
    (hostHead host).WellFormed := by
  have hget : RequestHead.Token (ascii "GET") := List.all_iff_forall_prop.mp (by decide)
  have hroot : RequestHead.Token (ascii "/") := List.all_iff_forall_prop.mp (by decide)
  have hprotocol : RequestHead.Token (ascii "HTTP/1.1") := List.all_iff_forall_prop.mp (by decide)
  have hname : RequestHead.HeaderName (ascii "Host") := List.all_iff_forall_prop.mp (by decide)
  exact ⟨hget, hroot, hprotocol, List.forall_mem_singleton.mpr ⟨hname, h⟩⟩

/-- A value of one word. -/
theorem request_head_read_back_iff_host : ReadBack (hostHead (ascii "localhost")) [] := by
  have hvalue : RequestHead.HeaderValue (ascii "localhost") :=
    headerValue_of_word (by decide) (by decide)
  refine (request_head_read_back_iff (wellFormed_hostHead hvalue) []).mpr
    ⟨⟨by decide, .inl (by decide)⟩, fun key value hin => ?_⟩
  have hlast : StringMap.lastValue (hostHead (ascii "localhost")).fields key =
      if ascii "host" = key then some (ascii "localhost") else none := by
    exact StringMap.lastValue_append_singleton [] (ascii "host", ascii "localhost")
  rw [hlast] at hin
  split at hin
  · obtain rfl := Option.some.inj hin
    decide
  · cases hin

/-- The port is lost. -/
theorem port_not_read_back : ∃ head : RequestHead, head = hostHead (ascii "localhost:80") ∧
    head.WellFormed ∧ ¬ ReadBack head [] := by
  have hvalue : RequestHead.HeaderValue (ascii "localhost:80") :=
    headerValue_of_word (by decide) (by decide)
  refine ⟨_, rfl, wellFormed_hostHead hvalue, ?_⟩
  rintro ⟨request, hparse, -, hheaders⟩
  have hrun : parseRequest ⟨(hostHead (ascii "localhost:80")).text ++ []⟩
      (hostHead (ascii "localhost:80")).text.length =
      .ok ⟨ascii "/", [(ascii "host", ascii "localhost")]⟩ := by decide
  obtain rfl := Except.ok.inj (hrun.symm.trans hparse)
  have hhost := hheaders (ascii "host")
  revert hhost
  decide

end ReadBack

/-! ## Headers that are not parsed -/

/-- Every line has what it is split at, not counting the whitespace at its end: the first a
space, the others a colon or a space, unless they are empty. -/
structure Separated (text : CppString) : Prop where
  /-- the first line -/
  requestLine : (32 : UInt8) ∈ trimRight ((split crlf text).headD [])
  /-- the others -/
  headerLines : ∀ line ∈ (split crlf text).drop 1, line ≠ [] →
    (58 : UInt8) ∈ trimRight line ∨ (32 : UInt8) ∈ trimRight line

/-- The loop over the header lines comes to its end exactly if each has a colon or a space. -/
theorem parseHeaders_ok_iff (lines : List CppString) (m : StringMap) :
    (∃ m', parseHeaders lines m = .ok m') ↔
      ∀ line ∈ lines, (58 : UInt8) ∈ line ∨ (32 : UInt8) ∈ line := by
  induction lines generalizing m with
  | nil => exact iff_of_true ⟨m, rfl⟩ nofun
  | cons line lines ih =>
    have hsecond := second_splitCompress (ascii ": ") line
    have hdelim : (∃ c ∈ line, c ∈ ascii ": ") ↔ (58 : UInt8) ∈ line ∨ (32 : UInt8) ∈ line := by
      rw [show ascii ": " = [58, 32] from rfl]
      simp only [List.mem_pair, and_or_left, exists_or, exists_eq_right]
    rw [List.forall_mem_cons, ← hdelim, ← hsecond, parseHeaders]
    split
    · rename_i name value tokens htokens
      rw [ih]
      exact (and_iff_right ⟨name, value, tokens, htokens⟩).symm
    · rename_i hno
      refine iff_of_false (fun ⟨_, h⟩ => nomatch h) ?_
      rintro ⟨⟨name, value, tokens, htokens⟩, -⟩
      exact hno name value tokens htokens

/-- Whether a text that ends a line is separated, by the lines. -/
theorem separated_append_iff {s first : CppString} {others : List CppString}
    (hsplit : split crlf s = first :: others) :
    Separated (s ++ [10]) ↔ (32 : UInt8) ∈ trimRight first ∧
      ∀ line ∈ (others.filter (· ≠ [])).map trimRight,
        (58 : UInt8) ∈ line ∨ (32 : UInt8) ∈ line := by
  have hall : split crlf (s ++ [10]) = first :: (others ++ [[]]) := by
    rw [split_append_delimiter (by decide), hsplit]
    rfl
  constructor
  · intro h
    have hfirst := h.requestLine
    have hothers := h.headerLines
    rw [hall] at hfirst hothers
    refine ⟨hfirst, fun line hline => ?_⟩
    obtain ⟨raw, hraw, rfl⟩ := List.mem_map.mp hline
    obtain ⟨hin, hne⟩ := List.mem_filter.mp hraw
    exact hothers raw (List.mem_append_left _ hin) (of_decide_eq_true hne)
  · rintro ⟨hfirst, hothers⟩
    refine ⟨by rw [hall]; exact hfirst, ?_⟩
    rw [hall]
    intro raw hraw hne
    rcases List.mem_append.mp hraw with hin | hlast
    · exact hothers _ (List.mem_map_of_mem (List.mem_filter.mpr ⟨hin, decide_eq_true hne⟩))
    · exact absurd (List.mem_singleton.mp hlast) hne

/-- A text that ends a line is parsed exactly if every line has what it is split at. -/
theorem parseSegment_ok_iff (s : CppString) :
    (∃ request, parseSegment (s ++ [10]) = .ok request) ↔ Separated (s ++ [10]) := by
  obtain ⟨first, others, hsplit⟩ := List.exists_cons_of_ne_nil (split_ne_nil crlf s)
  have hlines : (splitCompress crlf (s ++ [10])).map trimRight =
      trimRight first :: (others.filter (· ≠ [])).map trimRight ++ [[]] := by
    rw [splitCompress_append_delimiter (by decide), hsplit, List.map_append, List.map_cons]
    rfl
  have htail : ((others.filter (· ≠ [])).map trimRight ++ [[]]).dropLast =
      (others.filter (· ≠ [])).map trimRight := List.dropLast_concat
  have hspace := second_splitCompress (ascii " ") (trimRight first)
  have hdelim : (∃ c ∈ trimRight first, c ∈ ascii " ") ↔ (32 : UInt8) ∈ trimRight first := by
    rw [show ascii " " = [32] from rfl]
    simp
  rw [separated_append_iff hsplit, ← hdelim, ← hspace, parseSegment, parseRequest,
    List.take_length, hlines]
  simp only [List.cons_append, List.headD_cons, List.drop_succ_cons, List.drop_zero, htail]
  rcases htokens : splitCompress (ascii " ") (trimRight first) with _ | ⟨token, _ | ⟨uri, tokens⟩⟩
  · exact absurd htokens (splitCompress_ne_nil _ _)
  · refine iff_of_false (fun ⟨_, h⟩ => nomatch h) ?_
    rintro ⟨⟨_, _, _, h⟩, -⟩
    cases h
  · rw [← parseHeaders_ok_iff _ [], and_iff_right ⟨token, uri, tokens, rfl⟩]
    constructor
    · rintro ⟨request, h⟩
      cases hheaders : parseHeaders ((others.filter (· ≠ [])).map trimRight) [] with
      | error e =>
        rw [hheaders] at h
        cases h
      | ok m => exact ⟨m, rfl⟩
    · rintro ⟨m, hheaders⟩
      rw [hheaders]
      exact ⟨_, rfl⟩

/-! ## What a call may hand on -/

section Safety

variable {hc : HttpConnection} {socket : Socket} {text : CppString}

/-- A read loop that stops at a header end has it in the buffer. -/
theorem findSub_of_readRequest {fuel : ℕ} {buffer buffer' : CppString} {pos : ℕ}
    {socket socket' : Socket}
    (h : readRequest fuel buffer socket = .ok ((buffer', some pos), socket')) :
    findSub headerEnd buffer' = some pos := by
  induction fuel generalizing buffer socket with
  | zero => cases h
  | succ fuel ih =>
    obtain ⟨res, socket₁, -, hrest⟩ := Run.bind_eq_ok h
    match res with
    | none => cases hrest
    | some [] =>
      obtain ⟨heq, -⟩ := Run.pure_eq_ok.mp hrest
      obtain ⟨rfl, hpos⟩ := Prod.mk.inj heq
      exact hpos
    | some (b :: bs) =>
      dsimp only at hrest
      cases hfound : findSub headerEnd (buffer ++ b :: bs) with
      | none =>
        rw [hfound] at hrest
        exact ih hrest
      | some p =>
        rw [hfound] at hrest
        obtain ⟨heq, -⟩ := Run.pure_eq_ok.mp hrest
        obtain ⟨rfl, hpos⟩ := Prod.mk.inj heq
        exact hfound.trans hpos

/-- What is handed on was received up to a header end. -/
theorem received_of_handed (h : handed hc socket = some text) :
    ∃ hc' pos socket', receiveHeader hc socket = .ok ((hc', some pos), socket') ∧
      findSub headerEnd hc'.buffer = some pos ∧ text = hc'.buffer.take (pos + 4) := by
  rw [handed] at h
  split at h
  · rename_i hc' pos socket' hrun
    refine ⟨hc', pos, socket', hrun, ?_, (Option.some.inj h).symm⟩
    cases hfound : findSub headerEnd hc.buffer with
    | some p =>
      rw [receiveHeader, hfound] at hrun
      obtain ⟨heq, -⟩ := Run.pure_eq_ok.mp hrun
      obtain ⟨rfl, hpos⟩ := Prod.mk.inj heq
      exact hfound.trans hpos
    | none =>
      rw [receiveHeader, hfound] at hrun
      obtain ⟨socket₀, socket₁, -, hrest⟩ := Run.bind_eq_ok hrun
      obtain ⟨⟨buffer, p⟩, socket₂, hread, hlast⟩ := Run.bind_eq_ok hrest
      obtain ⟨heq, -⟩ := Run.pure_eq_ok.mp hlast
      obtain ⟨rfl, rfl⟩ := Prod.mk.inj heq
      exact findSub_of_readRequest hread
  · cases h

/-- A text that is handed on ends a line. -/
theorem handed_ends (h : handed hc socket = some text) : ∃ s, text = s ++ [10] := by
  obtain ⟨hc', pos, -, -, hfound, rfl⟩ := received_of_handed h
  obtain ⟨-, hprefix⟩ := findSub_eq_some hfound
  have hend : (hc'.buffer.drop pos).take 4 = headerEnd :=
    (List.prefix_iff_eq_take.mp hprefix).symm
  refine ⟨hc'.buffer.take pos ++ [13, 10, 13], ?_⟩
  rw [List.take_add, hend, List.append_assoc]
  rfl

/-- `ParseRequest` comes to its end, and so does the call, with true or false. -/
def ParsesSafely (hc : HttpConnection) (request : HttpRequest) (socket : Socket)
    (text : CppString) : Prop :=
  (∃ next, parseSegment text = .ok next) ∧
    ∃ found next hc' socket', (getNextRequest hc request).Returns socket (found, next, hc') socket'

/-- A text that a call hands on is parsed, and the call returns, exactly if every line of
the text has what it is split at. -/
theorem request_parsing_safe_iff (request : HttpRequest) (h : handed hc socket = some text) :
    ParsesSafely hc request socket text ↔ Separated text := by
  obtain ⟨hc', pos, socket', hreceive, -, htext⟩ := received_of_handed h
  obtain ⟨s, hs⟩ := handed_ends h
  have hok : (∃ next, parseSegment text = .ok next) ↔ Separated text := by
    rw [hs]
    exact parseSegment_ok_iff s
  rw [← hok]
  constructor
  · exact And.left
  · rintro ⟨next, hnext⟩
    have hparse : parseRequest hc' (pos + 4) = .ok next := by
      rw [parseRequest_eq, ← htext, hnext]
    refine ⟨⟨next, hnext⟩, true, next, ⟨hc'.buffer.drop (pos + 4)⟩, socket', ?_⟩
    refine Run.Returns.bind hreceive ?_
    simp only [hparse]
    rfl

/-- A socket on which these bytes arrive in one piece. -/
def socketOf (bytes : CppString) : Socket := ⟨[.bytes bytes], [], []⟩

/-- A request for a page, without headers. -/
theorem request_parsing_safe_iff_get :
    ParsesSafely ⟨[]⟩ HttpRequest.new (socketOf (ascii "GET / HTTP/1.1\r\n\r\n"))
      (ascii "GET / HTTP/1.1\r\n\r\n") := by
  have hhanded : handed ⟨[]⟩ (socketOf (ascii "GET / HTTP/1.1\r\n\r\n")) =
      some (ascii "GET / HTTP/1.1\r\n\r\n") := by decide
  refine (request_parsing_safe_iff HttpRequest.new hhanded).mpr ⟨by decide, ?_⟩
  have hlines : (split crlf (ascii "GET / HTTP/1.1\r\n\r\n")).drop 1 = [[], [], [], []] := by decide
  rw [hlines]
  intro line hline hne
  exact absurd (List.eq_of_mem_replicate (n := 4) hline) hne

/-- An empty request line throws, and a header line without a separator is indexed beyond
its tokens. -/
theorem client_bytes_crash :
    handed ⟨[]⟩ (socketOf (ascii "\r\n\r\n")) = some (ascii "\r\n\r\n") ∧
      ¬ ParsesSafely ⟨[]⟩ HttpRequest.new (socketOf (ascii "\r\n\r\n")) (ascii "\r\n\r\n") ∧
      getNextRequest ⟨[]⟩ HttpRequest.new (socketOf (ascii "\r\n\r\n")) = .error .exception ∧
      getNextRequest ⟨[]⟩ HttpRequest.new (socketOf (ascii "GET / HTTP/1.1\r\nHost\r\n\r\n")) =
        .error .fault := by
  have hthrows : getNextRequest ⟨[]⟩ HttpRequest.new (socketOf (ascii "\r\n\r\n")) =
      .error .exception := by rfl
  refine ⟨by decide, ?_, hthrows, by rfl⟩
  rintro ⟨-, found, next, hc', socket', hreturns⟩
  rw [Run.Returns, hthrows] at hreturns
  cases hreturns

end Safety

end MultithreadedWebServer
