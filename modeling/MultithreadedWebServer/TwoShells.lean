import MultithreadedWebServer.SearchSessions

/-!
# The two shells give the same answers

`searchshell` searches the tables in memory, and `filesearchshell` the index file of the same
directory. They cut lines differently: `searchshell` takes what `fgets` stores in a small buffer
and cuts at spaces, `filesearchshell` takes whole lines, cuts at white space and makes letters
lower-case. On plain lines these are the same, and then so are the results.
-/

namespace MultithreadedWebServer

/-! ## Tokens -/

section Tokens

universe u

variable {α : Type u} {p q : α → Bool} {l : List α}

/-- Only what the delimiters say of the elements matters. -/
theorem tokens_congr (h : ∀ c ∈ l, p c = q c) : tokens p l = tokens q l := by
  have hsplit : l.splitOnP p = l.splitOnP q := by
    induction l with
    | nil => rfl
    | cons c l ih =>
      obtain ⟨hc, hl⟩ := List.forall_mem_cons.mp h
      rw [List.splitOnP_cons_eq_if_modifyHead, List.splitOnP_cons_eq_if_modifyHead, hc, ih hl]
  rw [tokens, tokens, hsplit]

/-- A token has elements of the list. -/
theorem mem_of_mem_tokens {token : List α} (htoken : token ∈ tokens p l) {c : α}
    (hc : c ∈ token) : c ∈ l ∧ p c = false := by
  have hsplit := (List.mem_filter.mp htoken).1
  clear htoken
  induction l generalizing token with
  | nil =>
    rw [List.splitOnP_nil, List.mem_singleton] at hsplit
    rw [hsplit] at hc
    cases hc
  | cons d l ih =>
    have hrest : ∀ {token}, token ∈ l.splitOnP p → c ∈ token → c ∈ d :: l ∧ p c = false :=
      fun htoken hmem => (ih hmem htoken).imp_left (List.mem_cons_of_mem d)
    rw [List.splitOnP_cons_eq_if_modifyHead] at hsplit
    split at hsplit
    · rcases List.mem_cons.mp hsplit with rfl | hsplit
      · cases hc
      · exact hrest hsplit hc
    · rename_i hd
      obtain ⟨first, others, heq⟩ := List.exists_cons_of_ne_nil (List.splitOnP_ne_nil p l)
      rw [heq] at hsplit hrest
      rcases List.mem_cons.mp hsplit with rfl | hsplit
      · rcases List.mem_cons.mp hc with rfl | hc
        · exact ⟨List.mem_cons_self, Bool.eq_false_iff.mpr hd⟩
        · exact hrest List.mem_cons_self hc
      · exact hrest (List.mem_cons_of_mem _ hsplit) hc

/-- There is a token if there is an element that is not a delimiter. -/
theorem tokens_ne_nil {c : α} (hc : c ∈ l) (hp : p c = false) : tokens p l ≠ [] := by
  intro hnil
  rcases htoken : nextToken p l with _ | ⟨token, rest⟩
  · rw [nextToken] at htoken
    split at htoken
    · rename_i hdrop
      rw [List.dropWhile_eq_nil_iff.mp hdrop c hc] at hp
      cases hp
    · cases htoken
  · rw [(nextToken_eq_some htoken).1] at hnil
    cases hnil

end Tokens

/-! ## Plain lines -/

/-- A line that is cut into the same words by both shells. -/
structure PlainLine (line : List UInt8) : Prop where
  /-- no white space but spaces, no NUL, and no upper-case letters -/
  chars : ∀ c ∈ line, c = 32 ∨ c ≠ 0 ∧ isSpace c = false ∧ toLower c = c
  /-- the last character is not a space -/
  ends : ∃ c ∈ line.getLast?, c ≠ 32
  /-- the line fits the buffer with the newline and the NUL -/
  short : line.length + 2 ≤ usrInputSize

/-- The lines as they are typed. -/
def typed (lines : List (List UInt8)) : List UInt8 := lines.flatMap (· ++ [10])

section Lines

variable {line rest : List UInt8} {lines : List (List UInt8)}

theorem PlainLine.not_newline (h : PlainLine line) : ∀ c ∈ line, c ≠ 10 := by
  rintro c hc rfl
  rcases h.chars 10 hc with heq | ⟨-, hspace, -⟩
  · revert heq
    decide
  · revert hspace
    decide

theorem PlainLine.not_nul (h : PlainLine line) : ∀ c ∈ line, c ≠ 0 := by
  rintro c hc rfl
  rcases h.chars 0 hc with heq | ⟨hne, -⟩
  · revert heq
    decide
  · exact hne rfl

theorem PlainLine.isSpace_eq (h : PlainLine line) : ∀ c ∈ line, isSpace c = decide (c = 32) := by
  intro c hc
  by_cases heq : c = 32
  · rw [heq]
    decide
  · obtain ⟨-, hspace, -⟩ := (h.chars c hc).resolve_left heq
    rw [hspace, decide_eq_false heq]

/-- `filesearchshell` reads the lines. -/
theorem typedLines_typed (h : ∀ line ∈ lines, PlainLine line) :
    typedLines (typed lines) = lines := by
  induction lines with
  | nil => rfl
  | cons line lines ih =>
    obtain ⟨hline, hlines⟩ := List.forall_mem_cons.mp h
    have hsplit := List.splitOnP_append_cons_of_forall_mem (p := fun c : UInt8 => c = 10)
      (fun c hc => decide_eq_false (hline.not_newline c hc)) 10 rfl (typed lines)
    rw [typedLines, typed, List.flatMap_cons, List.append_assoc, List.singleton_append, ← typed,
      hsplit, List.dropLast_cons_of_ne_nil (List.splitOnP_ne_nil _ _)]
    exact congrArg _ (ih hlines)

theorem takeLine_line : ∀ {line : List UInt8} {n : ℕ}, (∀ c ∈ line, c ≠ 10) → line.length < n →
    takeLine n (line ++ 10 :: rest) = (line ++ [10], rest)
  | _, 0, _, hlen => absurd hlen (Nat.not_lt_zero _)
  | [], n + 1, _, _ => by rw [List.nil_append, takeLine, if_pos rfl, List.nil_append]
  | c :: line, n + 1, h, hlen => by
    obtain ⟨hc, hline⟩ := List.forall_mem_cons.mp h
    rw [List.cons_append, takeLine, if_neg hc,
      takeLine_line hline (Nat.lt_of_succ_lt_succ hlen), List.cons_append]

/-- `searchshell` reads the lines with their newlines. -/
theorem linesOf_typed : ∀ {lines : List (List UInt8)} {fuel : ℕ},
    (∀ line ∈ lines, PlainLine line) → (typed lines).length < fuel →
      linesOf fuel (typed lines) = lines.map (· ++ [10])
  | _, 0, _, hfuel => absurd hfuel (Nat.not_lt_zero _)
  | [], fuel + 1, _, _ => rfl
  | line :: lines, fuel + 1, h, hfuel => by
    obtain ⟨hline, hlines⟩ := List.forall_mem_cons.mp h
    have htyped : typed (line :: lines) = line ++ 10 :: typed lines := by
      rw [typed, List.flatMap_cons, List.append_assoc, List.singleton_append, ← typed]
    have hshort : line.length < usrInputSize - 1 := by
      have hle := hline.short
      omega
    have hgets : fgets usrInputSize (line ++ 10 :: typed lines) =
        some (line ++ [10], typed lines) := by
      rw [fgets, if_neg, takeLine_line hline.not_newline hshort]
      exact List.append_ne_nil_of_right_ne_nil _ (List.cons_ne_nil _ _)
    rw [htyped, List.length_append, List.length_cons] at hfuel
    rw [htyped, linesOf, hgets, List.map_cons]
    exact congrArg _ (linesOf_typed hlines (by omega))

/-- In the buffer of `searchshell` is the line with its newline. -/
theorem PlainLine.lineString_eq (h : PlainLine line) :
    lineString (line ++ [10]) = line ++ [10] := by
  refine List.takeWhile_eq_self_iff.mpr fun c hc => ?_
  rcases List.mem_append.mp hc with hc | hc
  · exact decide_eq_true (h.not_nul c hc)
  · rw [List.mem_singleton.mp hc]
    rfl

theorem PlainLine.joinedEnd_eq (h : PlainLine line) :
    joinedEnd (lineString (line ++ [10])) = true := by
  obtain ⟨c, hc, hne⟩ := h.ends
  rw [h.lineString_eq, joinedEnd, List.getLast?_concat, List.dropLast_concat, hc]
  simp [hne]

/-- Both shells find the same words. -/
theorem PlainLine.lineWords_eq (h : PlainLine line) :
    (lineWords (line ++ [10])).map CString.bytes = queryOf line := by
  rw [lineWords, h.lineString_eq, List.dropLast_concat, wordsOf, queryOf,
    tokens_congr h.isSpace_eq, List.map_map]
  refine List.map_congr_left fun token htoken => ?_
  have hbytes : (CString.ofBytes token).bytes = token :=
    List.takeWhile_eq_self_iff.mpr fun c hc =>
      decide_eq_true (h.not_nul c (mem_of_mem_tokens htoken hc).1)
  have hlower : token.map toLower = token := by
    refine (List.map_congr_left fun c hc => ?_).trans (List.map_id token)
    obtain ⟨hmem, hspace⟩ := mem_of_mem_tokens htoken hc
    exact ((h.chars c hmem).resolve_left (of_decide_eq_false hspace)).2.2
  rw [Function.comp_apply, hbytes, hlower]

theorem PlainLine.lineWords_ne (h : PlainLine line) : lineWords (line ++ [10]) ≠ [] := by
  obtain ⟨c, hc, hne⟩ := h.ends
  intro hnil
  have hquery := h.lineWords_eq
  rw [hnil, List.map_nil, queryOf, tokens_congr h.isSpace_eq, eq_comm,
    List.map_eq_nil_iff] at hquery
  exact tokens_ne_nil (List.mem_of_getLast? hc) (decide_eq_false hne) hquery

end Lines

/-! ## The two sessions -/

/-- Two answers to a query: the same files with the same ranks, best rank first. -/
def SameAnswer (found found' : List QueryResult) : Prop :=
  found.Perm found' ∧ found.map QueryResult.rank = found'.map QueryResult.rank

theorem sameAnswer_of_perm {found found' hits : List QueryResult} (h : found.Perm hits)
    (h' : found'.Perm hits) (hsorted : found.Pairwise fun x y => y.rank ≤ x.rank)
    (hsorted' : found'.Pairwise fun x y => y.rank ≤ x.rank) : SameAnswer found found' := by
  have hboth : found.Perm found' := h.trans h'.symm
  refine ⟨hboth, ?_⟩
  exact (hboth.map QueryResult.rank).eq_of_pairwise (fun x y _ _ hxy hyx => le_antisymm hyx hxy)
    (List.pairwise_map.mpr hsorted) (List.pairwise_map.mpr hsorted')

/-- The replies of the two shells to a plain line come from the same answer. -/
theorem PlainLine.exists_sameAnswer {t : SourceTree} {line : List UInt8} (h : PlainLine line)
    {printed reply : CppString} (hprints : Prints t (line ++ [10]) printed)
    (hreplies : Replies [t] line reply) : ∃ found found', printed = found.flatMap shellLine ∧
      reply = shellResults found' ∧ SameAnswer found found' := by
  rw [Prints, if_neg h.lineWords_ne, h.lineWords_eq] at hprints
  obtain ⟨found, hperm, hsorted, rfl⟩ := hprints
  rcases hreplies with ⟨hnil, -⟩ | ⟨found', hperm', hsorted', -, rfl⟩
  · rw [← h.lineWords_eq, List.map_eq_nil_iff] at hnil
    exact absurd hnil h.lineWords_ne
  · rw [List.flatMap_singleton] at hperm'
    exact ⟨found, found', rfl, rfl, sameAnswer_of_perm hperm hperm' hsorted hsorted'⟩

/-- So do the replies to a list of plain lines. -/
theorem exists_sameAnswers {t : SourceTree} : ∀ {lines : List (List UInt8)}
    {memory disk : List CppString}, (∀ line ∈ lines, PlainLine line) →
      List.Forall₂ (Prints t) (lines.map (· ++ [10])) memory →
      List.Forall₂ (Replies [t]) lines disk → ∃ found found', found.length = lines.length ∧
        List.Forall₂ SameAnswer found found' ∧ memory = found.map (List.flatMap shellLine) ∧
          disk = found'.map shellResults
  | [], _, _, _, .nil, .nil => ⟨[], [], rfl, .nil, rfl, rfl⟩
  | line :: lines, _, _, h, .cons hprints hmemory, .cons hreplies hdisk => by
    obtain ⟨hline, hlines⟩ := List.forall_mem_cons.mp h
    obtain ⟨found, found', rfl, rfl, hsame⟩ := hline.exists_sameAnswer hprints hreplies
    obtain ⟨rest, rest', hlength, hall, rfl, rfl⟩ := exists_sameAnswers hlines hmemory hdisk
    refine ⟨found :: rest, found' :: rest', ?_, .cons hsame hall, rfl, rfl⟩
    rw [List.length_cons, List.length_cons, hlength]

/-- On plain lines, whose words the hashes tell apart from those of the directory, the shell that
searches the tables in memory and the shell that searches the index file find the same files
with the same ranks for every line. -/
theorem shells_agree (t : SourceTree) (h : t.Indexable) (hfew : t.files.length < 2 ^ 31)
    (printFreed : Except Stop PUnit) (tables : DocTable × MemIndex) (file : List UInt8)
    (hfile : Built t file) (sort : List QueryResult → List QueryResult)
    (hsort : ∀ results, (sort results).Perm results ∧
      (sort results).Pairwise fun x y => y.less x = false)
    (lines : List (List UInt8)) (hplain : ∀ line ∈ lines, PlainLine line)
    (hapart : ∀ line ∈ lines, HashesApart (t.words ++ wordsOf line)) :
    ∃ found found', found.length = lines.length ∧ List.Forall₂ SameAnswer found found' ∧
      searchShell printFreed tables t.rootdir (.directory true t.entries) [] (typed lines) =
        .ok (sessionOutput t.rootdir (found.map (List.flatMap shellLine))) ∧
      fileSearchShell sort [file] (typed lines) =
        .ok (((found'.map shellResults).flatMap fun reply => shellPrompt ++ reply) ++
          shellPrompt) := by
  have hlines : sessionLines (typed lines) = lines.map (· ++ [10]) :=
    linesOf_typed hplain (Nat.lt_succ_self _)
  have hread : ∀ line ∈ sessionLines (typed lines), joinedEnd (lineString line) = true ∧
      HashesApart (t.words ++ lineWords line) := by
    rw [hlines, List.forall_mem_map]
    intro line hline
    have hplain := hplain line hline
    refine ⟨hplain.joinedEnd_eq, ?_⟩
    rw [lineWords, hplain.lineString_eq, List.dropLast_concat]
    exact hapart line hline
  obtain ⟨memory, hrun, hmemory⟩ := h.searchShell_prints hfew printFreed tables hread
  obtain ⟨qp, hopen, hqp⟩ := openIndices_built true (.cons hfile .nil)
    (List.forall_mem_singleton.mpr h)
  obtain ⟨disk, hdisk, hrun'⟩ := promptLoop_replies hsort hqp _ (typed lines) (Nat.lt_succ_self _)
  rw [hlines] at hmemory
  rw [typedLines_typed hplain] at hdisk
  obtain ⟨found, found', hlength, hsame, rfl, rfl⟩ := exists_sameAnswers hplain hmemory hdisk
  refine ⟨found, found', hlength, hsame, hrun, ?_⟩
  rw [fileSearchShell, if_neg (List.cons_ne_nil _ _), newQueryProcessor,
    if_neg (List.cons_ne_nil _ _), hopen, ok_bind, hrun']

/-- The two lines `"a"` and `"a b"`, asked of two files that have the line `"a"`. -/
theorem shells_agree_small : ∃ tables file, Built smallTree file ∧
    ∃ found found', found.length = 2 ∧ List.Forall₂ SameAnswer found found' ∧
      searchShell (.ok ⟨⟩) tables smallTree.rootdir (.directory true smallTree.entries) []
          (ascii "a\na b\n") =
        .ok (sessionOutput smallTree.rootdir (found.map (List.flatMap shellLine))) ∧
      fileSearchShell sortResults [file] (ascii "a\na b\n") =
        .ok (((found'.map shellResults).flatMap fun reply => shellPrompt ++ reply) ++
          shellPrompt) := by
  obtain ⟨file, hfile⟩ := indexable_smallTree.exists_built
  have hplain : ∀ line ∈ [ascii "a", ascii "a b"], PlainLine line := by
    rw [List.forall_mem_cons, List.forall_mem_singleton]
    exact ⟨⟨by decide +kernel, ⟨97, rfl, by decide⟩, by decide⟩,
      ⟨by decide +kernel, ⟨98, rfl, by decide⟩, by decide⟩⟩
  have hapart : ∀ line ∈ [ascii "a", ascii "a b"],
      HashesApart (smallTree.words ++ wordsOf line) := by
    rw [List.forall_mem_cons, List.forall_mem_singleton]
    unfold HashesApart
    decide +kernel
  exact ⟨_, file, hfile, shells_agree smallTree indexable_smallTree (by decide) (.ok ⟨⟩)
    (⟨HashTable.fresh _ 1, HashTable.fresh _ 1, 0⟩, ⟨HashTable.fresh _ 1, Arena.empty⟩) file hfile
    sortResults sortResults_spec [ascii "a", ascii "a b"] hplain hapart⟩

end MultithreadedWebServer
