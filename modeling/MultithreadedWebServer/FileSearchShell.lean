import MultithreadedWebServer.DelimitedTokens
import MultithreadedWebServer.IndexPipeline

/-!
# filesearchshell: queries from the standard input, answers from index files

The shell reads lines until the end of the input, takes the words of each line, and prints what
`ProcessQuery` finds. A last line that no newline ends is not a query: `getline` sets `eof` when
it stores it.
-/

namespace MultithreadedWebServer

/-! ## Lines and words -/

/-- `getline(cin, usr_input)`: the line and what is left; `none` if `cin.eof()` holds after it. -/
def getline (cin : List UInt8) : Option (CppString × List UInt8) :=
  match cin.dropWhile (· ≠ 10) with
  | [] => none
  | _ :: rest => some (cin.takeWhile (· ≠ 10), rest)

/-- `ss_usr_input >> single_word`: the word and what is left; `none` if there is no word. -/
def extractWord (ss : CppString) : Option (CppString × CppString) :=
  match ss.dropWhile isSpace with
  | [] => none
  | c :: rest => some ((c :: rest).takeWhile (!isSpace ·), (c :: rest).dropWhile (!isSpace ·))

/-- The loop over the words of a line. -/
def readWords : ℕ → CppString → Except Stop (List CppString)
  | 0, _ => .error .diverges
  | fuel + 1, ssUsrInput =>
    match extractWord ssUsrInput with
    | none => .ok []
    | some (singleWord, ssUsrInput) => (singleWord.map toLower :: ·) <$> readWords fuel ssUsrInput

/-! ## The loop -/

/-- What is printed before a line is read. -/
def shellPrompt : CppString := ascii "Enter query:\n"

/-- One line of the output. -/
def shellLine (curQr : QueryResult) : CppString :=
  ascii "  " ++ curQr.documentName ++ ascii " (" ++ decimal curQr.rank ++ ascii ")\n"

/-- The output for a query. -/
def shellResults (queryResults : List QueryResult) : CppString :=
  if queryResults = [] then ascii "  [no results]\n" else queryResults.flatMap shellLine

/-- What the shell does with a line. -/
def answerLine (sort : List QueryResult → List QueryResult) (myQp : QueryProcessor)
    (usrInput : CppString) : Except Stop CppString :=
  readWords (usrInput.length + 1) usrInput >>= fun query =>
    if query = [] then .ok [] else shellResults <$> processQuery sort myQp query

/-- The `while` loop: what is printed until the end of the input. -/
def promptLoop (sort : List QueryResult → List QueryResult) (myQp : QueryProcessor) :
    ℕ → List UInt8 → Except Stop CppString
  | 0, _ => .error .diverges
  | fuel + 1, cin =>
    match getline cin with
    | none => .ok shellPrompt
    | some (usrInput, cin) =>
      answerLine sort myQp usrInput >>= fun reply =>
        (shellPrompt ++ reply ++ ·) <$> promptLoop sort myQp fuel cin

/-- `main` for the files of the command line, given by their contents. -/
def fileSearchShell (sort : List QueryResult → List QueryResult) (indexList : List (List UInt8))
    (cin : List UInt8) : Except Stop CppString :=
  if indexList = [] then
    -- `Usage`
    .error .exitFailure
  else
    newQueryProcessor indexList true >>= fun myQp => promptLoop sort myQp (cin.length + 1) cin

/-! ## What is read -/

/-- The lines of the input that a newline ends. -/
def typedLines (cin : List UInt8) : List CppString := (cin.splitOnP (· = 10)).dropLast

/-- The words of a line, in lower case. -/
def queryOf (line : CppString) : List CppString := (tokens isSpace line).map (List.map toLower)

section Input

variable {cin rest : List UInt8} {line word ss : CppString}

/-- At the end of the input there is no line left. -/
theorem getline_none (h : getline cin = none) : typedLines cin = [] := by
  unfold getline at h
  rcases hcin : cin.dropWhile (· ≠ 10) with _ | ⟨c, rest⟩
  · have hall : ∀ c ∈ cin, (decide (c = 10)) = false := fun c hc => by
      simpa using List.dropWhile_eq_nil_iff.mp hcin c hc
    rw [typedLines, List.splitOnP_eq_singleton hall]
    rfl
  · rw [hcin] at h
    cases h

/-- Otherwise the first line comes off. -/
theorem getline_some (h : getline cin = some (line, rest)) :
    typedLines cin = line :: typedLines rest ∧ rest.length < cin.length := by
  unfold getline at h
  rcases hcin : cin.dropWhile (· ≠ 10) with _ | ⟨c, rest'⟩
  · rw [hcin] at h
    cases h
  rw [hcin] at h
  obtain ⟨rfl, rfl⟩ := Prod.mk.inj (Option.some.inj h)
  have hc : decide (c = 10) = true := by
    have hhead := List.head?_dropWhile_not (· ≠ 10) cin
    rw [hcin] at hhead
    simpa using hhead
  have hline : ∀ d ∈ cin.takeWhile (· ≠ 10), decide (d = 10) = false := fun d hd => by
    simpa using List.mem_takeWhile_imp hd
  have hsplit : cin = cin.takeWhile (· ≠ 10) ++ c :: rest' := by
    rw [← hcin, List.takeWhile_append_dropWhile]
  constructor
  · rw [typedLines, typedLines]
    conv_lhs => rw [hsplit]
    rw [List.splitOnP_append_cons (p := fun c => decide (c = 10)) _ _ hc,
      List.splitOnP_eq_singleton hline,
      List.dropLast_append_of_ne_nil (List.splitOnP_ne_nil _ _)]
    rfl
  · conv_rhs => rw [hsplit]
    rw [List.length_append, List.length_cons]
    omega

theorem extractWord_none (h : extractWord ss = none) : queryOf ss = [] := by
  have hnext : nextToken isSpace ss = none := by
    unfold extractWord at h
    unfold nextToken
    rcases hss : ss.dropWhile isSpace with _ | ⟨c, m⟩
    · rfl
    · rw [hss] at h
      cases h
  rw [queryOf, nextToken_eq_none hnext]
  rfl

/-- `operator>>` takes the first token off; the delimiter after it stays. -/
theorem extractWord_some (h : extractWord ss = some (word, rest)) :
    queryOf ss = word.map toLower :: queryOf rest ∧ rest.length < ss.length := by
  unfold extractWord at h
  rcases hss : ss.dropWhile isSpace with _ | ⟨c, m⟩
  · rw [hss] at h
    cases h
  rw [hss] at h
  obtain ⟨rfl, rfl⟩ := Prod.mk.inj (Option.some.inj h)
  have hnext : nextToken isSpace ss = some ((c :: m).takeWhile (!isSpace ·),
      ((c :: m).dropWhile (!isSpace ·)).tail) := by
    rw [nextToken, hss]
  have hc : isSpace c = false := by
    have hhead := List.head?_dropWhile_not isSpace ss
    rw [hss] at hhead
    simpa using hhead
  constructor
  · rw [queryOf, (nextToken_eq_some hnext).1, List.map_cons, queryOf]
    rcases hrest : (c :: m).dropWhile (!isSpace ·) with _ | ⟨d, r⟩
    · rfl
    · have hd : isSpace d = true := by
        have hhead := List.head?_dropWhile_not (!isSpace ·) (c :: m)
        rw [hrest] at hhead
        simpa using hhead
      rw [tokens_cons_delimiter hd, List.tail_cons]
  · have hle := (List.dropWhile_sublist (p := isSpace) (l := ss)).length_le
    have hm := (List.dropWhile_sublist (p := (!isSpace ·)) (l := m)).length_le
    rw [hss, List.length_cons] at hle
    rw [List.dropWhile_cons_of_pos (by simp [hc])]
    omega

/-- The loop over the words finds all of them. -/
theorem readWords_eq : ∀ (fuel : ℕ) (ss : CppString), ss.length < fuel →
    readWords fuel ss = .ok (queryOf ss)
  | 0, _, h => absurd h (Nat.not_lt_zero _)
  | fuel + 1, ss, h => by
    rw [readWords]
    rcases hword : extractWord ss with _ | ⟨word, rest⟩
    · rw [extractWord_none hword]
    · obtain ⟨hquery, hshort⟩ := extractWord_some hword
      dsimp only
      rw [readWords_eq fuel rest (by omega), hquery]
      rfl

end Input

/-! ## What is printed -/

/-- What the shell prints for a line, if the index files are those of the trees: nothing for a
line without a word, else the files with all of its words. -/
def Replies (trees : List SourceTree) (line reply : CppString) : Prop :=
  (queryOf line = [] ∧ reply = []) ∨
    ∃ results, results.Perm (trees.flatMap fun t => t.hits (queryOf line)) ∧
      (results.Pairwise fun x y => y.rank ≤ x.rank) ∧ queryOf line ≠ [] ∧
        reply = shellResults results

section Session

variable {trees : List SourceTree} {sort : List QueryResult → List QueryResult}
  {qp : QueryProcessor}

theorem answerLine_replies
    (hsort : ∀ results, (sort results).Perm results ∧
      (sort results).Pairwise fun x y => y.less x = false)
    (hqp : List.Forall₂ FindsHits qp trees) (line : CppString) :
    ∃ reply, answerLine sort qp line = .ok reply ∧ Replies trees line reply := by
  rw [answerLine, readWords_eq _ line (Nat.lt_succ_self _), ok_bind]
  by_cases hquery : queryOf line = []
  · rw [if_pos hquery]
    exact ⟨[], rfl, .inl ⟨hquery, rfl⟩⟩
  · obtain ⟨results, hrun, hperm, hsorted⟩ := processQuery_hits hsort hqp hquery
    rw [if_neg hquery, hrun]
    exact ⟨shellResults results, rfl, .inr ⟨results, hperm, hsorted, hquery, rfl⟩⟩

/-- The loop answers each line once, in order, and asks once more. -/
theorem promptLoop_replies
    (hsort : ∀ results, (sort results).Perm results ∧
      (sort results).Pairwise fun x y => y.less x = false)
    (hqp : List.Forall₂ FindsHits qp trees) : ∀ (fuel : ℕ) (cin : List UInt8), cin.length < fuel →
      ∃ replies, List.Forall₂ (Replies trees) (typedLines cin) replies ∧
        promptLoop sort qp fuel cin =
          .ok ((replies.flatMap fun reply => shellPrompt ++ reply) ++ shellPrompt)
  | 0, _, h => absurd h (Nat.not_lt_zero _)
  | fuel + 1, cin, h => by
    rw [promptLoop]
    rcases hline : getline cin with _ | ⟨line, rest⟩
    · rw [getline_none hline]
      exact ⟨[], .nil, rfl⟩
    · obtain ⟨hlines, hshort⟩ := getline_some hline
      obtain ⟨reply, hreply, hfirst⟩ := answerLine_replies hsort hqp line
      obtain ⟨replies, hall, hrun⟩ := promptLoop_replies hsort hqp fuel rest (by omega)
      rw [hlines]
      refine ⟨reply :: replies, .cons hfirst hall, ?_⟩
      dsimp only
      rw [hreply, ok_bind, hrun, List.flatMap_cons]
      show Except.ok (shellPrompt ++ reply ++ _) = Except.ok _
      rw [List.append_assoc _ _ shellPrompt]

end Session

/-- A session with `filesearchshell` over the index files of some trees: whatever is typed, the
shell prints a prompt and an answer for each line that a newline ends, in order, and a last
prompt. The answer to a line is what a search of the trees for its words should find. -/
theorem shell_answers_lines (trees : List SourceTree) (hne : trees ≠ [])
    (h : ∀ t ∈ trees, t.Indexable) (sort : List QueryResult → List QueryResult)
    (hsort : ∀ results, (sort results).Perm results ∧
      (sort results).Pairwise fun x y => y.less x = false)
    (files : List (List UInt8)) (hfiles : List.Forall₂ Built trees files) (cin : List UInt8) :
    ∃ replies, List.Forall₂ (Replies trees) (typedLines cin) replies ∧
      fileSearchShell sort files cin =
        .ok ((replies.flatMap fun reply => shellPrompt ++ reply) ++ shellPrompt) := by
  have hfilesne : files ≠ [] := by
    rintro rfl
    exact hne (List.forall₂_nil_right_iff.mp hfiles)
  obtain ⟨qp, hopen, hqp⟩ := openIndices_built true hfiles h
  obtain ⟨replies, hall, hrun⟩ :=
    promptLoop_replies hsort hqp (cin.length + 1) cin (Nat.lt_succ_self _)
  refine ⟨replies, hall, ?_⟩
  rw [fileSearchShell, if_neg hfilesne, newQueryProcessor, if_neg hfilesne, hopen, ok_bind, hrun]

/-- A session with one query, one empty line and one line that is not ended. -/
theorem shell_answers_lines_small : ∃ file replies, Built smallTree file ∧
    List.Forall₂ (Replies [smallTree]) [ascii " A", []] replies ∧
      fileSearchShell sortResults [file] (ascii " A\n\na") =
        .ok ((replies.flatMap fun reply => shellPrompt ++ reply) ++ shellPrompt) := by
  obtain ⟨file, hbuilt⟩ := indexable_smallTree.exists_built
  obtain ⟨replies, hall, hrun⟩ := shell_answers_lines [smallTree] (by decide)
    (List.forall_mem_singleton.mpr indexable_smallTree) sortResults sortResults_spec [file]
    (.cons hbuilt .nil) (ascii " A\n\na")
  exact ⟨file, replies, hbuilt, hall, hrun⟩

end MultithreadedWebServer
