import MultithreadedWebServer.HttpConnection

/-!
# Streams of responses

A persistent connection carries one response after the other, and nothing but the responses
says where one ends. A client cuts them off: the header block up to the first blank line, and
then as many bytes as the last line of the block says. No blank line arises inside a header
block, and the length is exact, so the client gets back what was put in.
-/

namespace MultithreadedWebServer

/-! ## Numbers -/

/-- Whether a byte is a decimal digit. -/
def isDigit (c : UInt8) : Bool := 48 ≤ c && c ≤ 57

/-- The number that a string of decimal digits stands for. -/
def parseDecimal (s : CppString) : Option ℕ :=
  if s ≠ [] ∧ s.all isDigit then some (s.foldl (fun n c => 10 * n + (c.toNat - 48)) 0) else none

/-- A decimal digit of a number, as a byte. -/
theorem toNat_digit {n : ℕ} {d : Char} (hd : d ∈ Nat.toDigits 10 n) :
    (UInt8.ofNat d.toNat).toNat = d.toNat ∧ 48 ≤ d.toNat ∧ d.toNat ≤ 57 := by
  have hdigit : d.isDigit = true := Nat.isDigit_of_mem_toDigits (by decide) (by decide) hd
  obtain ⟨hlow, hhigh⟩ := Char.isDigit_iff_toNat.mp hdigit
  have hle : d.toNat ≤ 57 := hhigh
  exact ⟨UInt8.toNat_ofNat_of_lt' (Nat.lt_of_le_of_lt hle (by decide)), hlow, hle⟩

theorem isDigit_of_mem_decimal {n : ℕ} {c : UInt8} (hc : c ∈ decimal n) : isDigit c = true := by
  obtain ⟨d, hd, rfl⟩ := List.mem_map.mp hc
  obtain ⟨hnat, hlow, hhigh⟩ := toNat_digit hd
  rw [isDigit, Bool.and_eq_true, decide_eq_true_iff, decide_eq_true_iff, UInt8.le_iff_toNat_le,
    UInt8.le_iff_toNat_le, hnat]
  exact ⟨hlow, hhigh⟩

/-- A number that was printed is read back. -/
theorem parseDecimal_decimal (n : ℕ) : parseDecimal (decimal n) = some n := by
  have hfold : (decimal n).foldl (fun n c => 10 * n + (c.toNat - 48)) 0 =
      Nat.ofDigitChars 10 (Nat.toDigits 10 n) 0 := by
    rw [decimal, List.foldl_map, Nat.ofDigitChars_eq_foldl]
    apply List.foldl_ext
    intro m d hd
    rw [(toNat_digit hd).1]
    rfl
  have hne : decimal n ≠ [] := by
    intro hnil
    have hlen := congrArg List.length hnil
    rw [decimal, List.length_map] at hlen
    have := Nat.length_toDigits_pos (b := 10) (n := n)
    exact absurd hlen (Nat.pos_iff_ne_zero.mp this)
  have hall : (decimal n).all isDigit = true :=
    List.all_eq_true.mpr fun c hc => isDigit_of_mem_decimal hc
  rw [parseDecimal, if_pos ⟨hne, hall⟩, hfold, Nat.ofDigitChars_ten_toDigits]

/-! ## Cutting a stream of responses -/

/-- What a client makes of a response. -/
structure ResponseFrame where
  /-- the first line -/
  statusLine : CppString
  /-- the lines after it, without the length -/
  headerLines : List CppString
  /-- the body -/
  body : CppString
  deriving DecidableEq

/-- The lines of a header block that ends with a line break, without the line breaks. -/
def blockLines (block : CppString) : List CppString :=
  (frames crlf block).map fun line => line.take (line.length - crlf.length)

/-- The length that a line says. -/
def contentLength (line : CppString) : Option ℕ :=
  if ascii "Content-length: " <+: line then parseDecimal (line.drop 16) else none

/-- The first response of a stream, and the rest of the stream. -/
def cutResponse (stream : CppString) : Option (ResponseFrame × CppString) := do
  let pos ← findSub headerEnd stream
  let lines := blockLines (stream.take (pos + crlf.length))
  let n ← lines.getLast? >>= contentLength
  let rest := stream.drop (pos + headerEnd.length)
  if rest.length < n then
    none
  else
    some (⟨lines.headD [], lines.tail.dropLast, rest.take n⟩, rest.drop n)

/-- The responses of a stream, at most so many. -/
def cutResponsesUpTo : ℕ → CppString → Option (List ResponseFrame)
  | _, [] => some []
  | 0, _ :: _ => none
  | n + 1, c :: stream => do
    let (frame, rest) ← cutResponse (c :: stream)
    let frames ← cutResponsesUpTo n rest
    return frame :: frames

/-- The responses of a stream. -/
def cutResponses (stream : CppString) : Option (List ResponseFrame) :=
  cutResponsesUpTo stream.length stream

/-! ## Header blocks -/

/-- A line has no CR and no LF. -/
def IsLine (line : CppString) : Prop := 13 ∉ line ∧ 10 ∉ line

theorem IsLine.append {s t : CppString} (hs : IsLine s) (ht : IsLine t) : IsLine (s ++ t) := by
  constructor
  · rw [List.mem_append, not_or]
    exact ⟨hs.1, ht.1⟩
  · rw [List.mem_append, not_or]
    exact ⟨hs.2, ht.2⟩

theorem isLine_decimal (n : ℕ) : IsLine (decimal n) := by
  constructor
  · intro h
    exact absurd (isDigit_of_mem_decimal h) (by decide)
  · intro h
    exact absurd (isDigit_of_mem_decimal h) (by decide)

/-- The lines of a block, each with its line break. -/
def block (lines : List CppString) : CppString := lines.flatMap fun line => line ++ crlf

theorem block_cons (line : CppString) (lines : List CppString) :
    block (line :: lines) = line ++ (crlf ++ block lines) := by
  rw [block, List.flatMap_cons, List.append_assoc]
  rfl

/-- A line break is not the start of a blank line when the next line is not empty. -/
theorem findSub_crlf_append {c : UInt8} (hc : c ≠ 13) (s : CppString) :
    findSub headerEnd (crlf ++ c :: s) = (findSub headerEnd (c :: s)).map (· + crlf.length) := by
  have hfirst : ¬ headerEnd <+: 13 :: 10 :: c :: s := by
    simp [headerEnd, List.cons_prefix_cons, Ne.symm hc]
  have hsecond : ¬ headerEnd <+: 10 :: c :: s := by
    simp [headerEnd, List.cons_prefix_cons]
  rw [show crlf ++ c :: s = 13 :: 10 :: c :: s from rfl, findSub, if_neg hfirst, findSub,
    if_neg hsecond, Option.map_map]
  rfl

/-- The first blank line after some lines that are not empty is the one behind them. -/
theorem findSub_block {lines : List CppString} (hlines : ∀ line ∈ lines, IsLine line ∧ line ≠ [])
    (hne : lines ≠ []) (s : CppString) :
    ∃ pos, findSub headerEnd (block lines ++ (crlf ++ s)) = some pos ∧
      pos + crlf.length = (block lines).length := by
  induction lines with
  | nil => exact absurd rfl hne
  | cons line lines ih =>
    obtain ⟨hline, -⟩ := hlines line (List.mem_cons_self ..)
    have hskip : ∀ t, findSub headerEnd (line ++ t) =
        (findSub headerEnd t).map (· + line.length) := findSub_append_of_not_mem hline.1
    rw [block_cons, List.append_assoc, hskip]
    cases lines with
    | nil =>
      have hhere : findSub headerEnd (crlf ++ block [] ++ (crlf ++ s)) = some 0 :=
        if_pos (List.prefix_append headerEnd s)
      rw [hhere]
      refine ⟨line.length, by simp, ?_⟩
      simp [block]
    | cons line' lines =>
      obtain ⟨pos, hpos, hlen⟩ :=
        ih (fun l hl => hlines l (List.mem_cons_of_mem _ hl)) (List.cons_ne_nil _ _)
      obtain ⟨hline', hsome⟩ := hlines line' (List.mem_cons_of_mem _ (List.mem_cons_self ..))
      obtain ⟨c, rest, hc⟩ :
          ∃ c rest, block (line' :: lines) ++ (crlf ++ s) = c :: rest ∧ c ≠ 13 := by
        cases line' with
        | nil => exact absurd rfl hsome
        | cons c line' =>
          refine ⟨c, _, rfl, ?_⟩
          intro heq
          exact hline'.1 (heq ▸ List.mem_cons_self ..)
      rw [List.append_assoc, hc.1, findSub_crlf_append hc.2, ← hc.1, hpos]
      refine ⟨pos + crlf.length + line.length, rfl, ?_⟩
      rw [List.length_append, List.length_append, ← hlen]
      omega

theorem blockLines_block {lines : List CppString} (hlines : ∀ line ∈ lines, IsLine line) :
    blockLines (block lines) = lines := by
  have hframes : frames crlf (block lines) = lines.map (· ++ crlf) := by
    induction lines with
    | nil => rfl
    | cons line lines ih =>
      have hcr := (hlines line (List.mem_cons_self ..)).1
      have hfirst : frames crlf (line ++ (crlf ++ block lines)) =
          (line ++ crlf) :: frames crlf (block lines) := frames_append hcr (block lines)
      rw [block_cons, hfirst, ih (fun l hl => hlines l (List.mem_cons_of_mem _ hl)), List.map_cons]
  rw [blockLines, hframes, List.map_map]
  apply List.map_id''
  intro line
  simp

/-! ## A response -/

/-- The first line of a response. -/
def statusLine (response : HttpResponse) : CppString :=
  response.protocol ++ ascii " " ++ decimal response.responseCode ++ ascii " " ++ response.message

/-- The lines of its headers, in the order of the map. -/
def headerLines (response : HttpResponse) : List CppString :=
  response.headers.map fun h => h.1 ++ ascii ": " ++ h.2

/-- The line with the length of its body. -/
def lengthLine (response : HttpResponse) : CppString :=
  ascii "Content-length: " ++ decimal response.body.length

/-- What a client should make of it. -/
def frameOf (response : HttpResponse) : ResponseFrame :=
  ⟨statusLine response, headerLines response, response.body⟩

/-- No line break in the protocol, the message and the headers. -/
structure HttpResponse.OnLines (response : HttpResponse) : Prop where
  /-- the protocol -/
  protocol : IsLine response.protocol
  /-- the message -/
  message : IsLine response.message
  /-- the names and the values of the headers -/
  headers : ∀ h ∈ response.headers, IsLine h.1 ∧ IsLine h.2

theorem generateResponseString_eq (response : HttpResponse) :
    generateResponseString response =
      block (statusLine response :: (headerLines response ++ [lengthLine response])) ++
        (crlf ++ response.body) := by
  simp only [generateResponseString, block, statusLine, headerLines, lengthLine,
    List.flatMap_cons, List.flatMap_append, List.flatMap_nil, List.flatMap_map, List.append_assoc,
    List.append_nil]

/-- The lines of the header block. -/
theorem HttpResponse.OnLines.lines {response : HttpResponse} (h : response.OnLines) :
    ∀ line ∈ statusLine response :: (headerLines response ++ [lengthLine response]),
      IsLine line ∧ line ≠ [] := by
  have hblank : IsLine (ascii " ") := ⟨by decide, by decide⟩
  have hcolon : IsLine (ascii ": ") := ⟨by decide, by decide⟩
  have hname : IsLine (ascii "Content-length: ") := ⟨by decide, by decide⟩
  intro line hline
  rw [List.mem_cons, List.mem_append, List.mem_singleton] at hline
  rcases hline with rfl | hheader | rfl
  · refine ⟨(((h.protocol.append hblank).append (isLine_decimal _)).append hblank).append
      h.message, ?_⟩
    simp [statusLine, ascii]
  · obtain ⟨header, hmem, rfl⟩ := List.mem_map.mp hheader
    obtain ⟨hkey, hvalue⟩ := h.headers header hmem
    refine ⟨(hkey.append hcolon).append hvalue, ?_⟩
    simp [ascii]
  · refine ⟨hname.append (isLine_decimal _), ?_⟩
    simp [lengthLine, ascii]

theorem contentLength_lengthLine (response : HttpResponse) :
    contentLength (lengthLine response) = some response.body.length := by
  have hdrop : (lengthLine response).drop 16 = decimal response.body.length :=
    List.drop_left' (by decide)
  have hname : ascii "Content-length: " <+: lengthLine response := List.prefix_append _ _
  rw [contentLength, if_pos hname, hdrop, parseDecimal_decimal]

/-- A response is cut off from whatever follows it. -/
theorem cutResponse_generateResponseString {response : HttpResponse} (h : response.OnLines)
    (stream : CppString) :
    cutResponse (generateResponseString response ++ stream) = some (frameOf response, stream) := by
  have hlines := h.lines
  have hbreaks : ∀ line ∈ statusLine response :: (headerLines response ++ [lengthLine response]),
      IsLine line := fun line hline => (hlines line hline).1
  obtain ⟨pos, hpos, hlen⟩ := findSub_block hlines (List.cons_ne_nil _ _) (response.body ++ stream)
  have hlast : (statusLine response :: (headerLines response ++ [lengthLine response])).getLast? =
      some (lengthLine response) := by
    rw [← List.cons_append, List.getLast?_concat]
  have hbody : (block (statusLine response :: (headerLines response ++ [lengthLine response])) ++
      (crlf ++ (response.body ++ stream))).drop (pos + headerEnd.length) =
        response.body ++ stream := by
    have hend : pos + headerEnd.length =
        (block (statusLine response :: (headerLines response ++ [lengthLine response]))).length +
          crlf.length := by
      rw [← hlen]
      rfl
    rw [hend, ← List.append_assoc]
    exact List.drop_left' List.length_append
  rw [generateResponseString_eq, List.append_assoc, List.append_assoc, cutResponse, hpos]
  simp only [Option.bind_eq_bind, Option.bind_some, hlen, List.take_left, hbody,
    blockLines_block hbreaks, hlast, contentLength_lengthLine]
  have hfits : ¬ (response.body ++ stream).length < response.body.length := by
    rw [List.length_append]
    exact Nat.not_lt.mpr (Nat.le_add_right _ _)
  rw [if_neg hfits, List.drop_left, List.tail_cons, List.dropLast_concat]
  rfl

theorem cutResponsesUpTo_flatMap (responses : List HttpResponse)
    (h : ∀ response ∈ responses, response.OnLines) {n : ℕ}
    (hn : (responses.flatMap generateResponseString).length ≤ n) :
    cutResponsesUpTo n (responses.flatMap generateResponseString) =
      some (responses.map frameOf) := by
  induction responses generalizing n with
  | nil => cases n <;> rfl
  | cons response responses ih =>
    have hcut := cutResponse_generateResponseString (h response (List.mem_cons_self ..))
      (responses.flatMap generateResponseString)
    obtain ⟨c, rest, hc⟩ : ∃ c rest, generateResponseString response = c :: rest :=
      List.exists_cons_of_ne_nil (by simp [generateResponseString, crlf])
    rw [List.flatMap_cons] at hn ⊢
    rw [List.length_append, hc, List.length_cons] at hn
    obtain ⟨m, rfl⟩ : ∃ m, n = m + 1 := ⟨n - 1, by omega⟩
    rw [hc, List.cons_append] at hcut ⊢
    have hrest := ih (fun r hr => h r (List.mem_cons_of_mem _ hr)) (n := m) (by omega)
    rw [cutResponsesUpTo, hcut, Option.bind_eq_bind, Option.bind_some]
    dsimp only
    rw [hrest]
    rfl

/-- Responses without line breaks in their headers can be sent one after the other: cut off one
by one, each has its status line, its headers in the order of the map, and its body. -/
theorem responses_self_delimiting (responses : List HttpResponse)
    (h : ∀ response ∈ responses, response.OnLines) :
    cutResponses (responses.flatMap generateResponseString) = some (responses.map frameOf) :=
  cutResponsesUpTo_flatMap responses h (Nat.le_refl _)

/-- Two responses, the first with a blank line in its body. -/
theorem responses_self_delimiting_two :
    cutResponses (generateResponseString ⟨ascii "HTTP/1.1", 200, ascii "OK",
        [(ascii "Content-type", ascii "text/html")], headerEnd⟩ ++
      generateResponseString ⟨ascii "HTTP/1.1", 404, ascii "Not Found", [], []⟩) =
      some [⟨ascii "HTTP/1.1 200 OK", [ascii "Content-type: text/html"], headerEnd⟩,
        ⟨ascii "HTTP/1.1 404 Not Found", [], []⟩] := by
  have hlines : ∀ response ∈ [(⟨ascii "HTTP/1.1", 200, ascii "OK",
      [(ascii "Content-type", ascii "text/html")], headerEnd⟩ : HttpResponse),
      ⟨ascii "HTTP/1.1", 404, ascii "Not Found", [], []⟩], response.OnLines := by
    intro response hmem
    rw [List.mem_cons, List.mem_singleton] at hmem
    rcases hmem with rfl | rfl
    · refine ⟨⟨by decide, by decide⟩, ⟨by decide, by decide⟩, ?_⟩
      intro header hheader
      obtain rfl := List.mem_singleton.mp hheader
      exact ⟨⟨by decide, by decide⟩, ⟨by decide, by decide⟩⟩
    · refine ⟨⟨by decide, by decide⟩, ⟨by decide, by decide⟩, ?_⟩
      intro header hheader
      cases hheader
  exact responses_self_delimiting _ hlines

end MultithreadedWebServer
