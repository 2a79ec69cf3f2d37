import MultithreadedWebServer.SearchShell

/-!
# The two passes over a line

The first pass counts the tokens of the line, the second one stores the tokens of the line
without its last character. So the counts agree unless that character is a token of its own
(`joinedEnd`): a newline after a space, a newline with nothing before it, or the last
character of a line that was cut there. Then an entry of the array stays as `malloc` left
it, and the loop that frees the words reads it (`processLine_never_returns`).
-/

namespace MultithreadedWebServer

/-! ## The loops -/

/-- The words of a string, as the second pass stores them. -/
def wordsOf (s : List UInt8) : List CString := (tokens (fun c => c = 32) s).map CString.ofBytes

theorem length_wordsOf (s : List UInt8) :
    (wordsOf s).length = (tokens (fun c => c = 32) s).length := List.length_map ..

/-- The first pass counts the tokens. -/
theorem countTokens_eq : ∀ (fuel : ℕ) (rest : List UInt8) (n : ℕ), rest.length < fuel →
    countTokens fuel rest n = pure (n + (wordsOf rest).length)
  | 0, _, _, h => absurd h (Nat.not_lt_zero _)
  | fuel + 1, rest, n, h => by
    rw [countTokens, length_wordsOf]
    rcases htoken : strtokR rest with _ | ⟨token, rest'⟩
    · rw [nextToken_eq_none htoken]
      rfl
    · obtain ⟨hsplit, hshort⟩ := nextToken_eq_some htoken
      dsimp only
      rw [countTokens_eq fuel rest' (n + 1) (by omega), hsplit, length_wordsOf, List.length_cons,
        Nat.add_right_comm, Nat.add_assoc]

/-- Entries that are stored, and entries that are not. -/
def partlyStored (words : List CString) (left : ℕ) : QueryArray :=
  words.map some ++ List.replicate left none

/-- The next entry is stored. -/
theorem storeEntry_next {σ : Type} (words : List CString) (left : ℕ) (word : CString) :
    (storeEntry (partlyStored words (left + 1)) words.length word : Run σ QueryArray) =
      pure (partlyStored (words ++ [word]) left) := by
  have hlt : words.length < (partlyStored words (left + 1)).length := by simp [partlyStored]
  rw [storeEntry, if_pos hlt]
  simp [partlyStored, List.set_append_right, List.replicate_succ]

/-- The second pass stores the tokens, if there is room and memory for them. -/
theorem storeTokens_attempt : ∀ (fuel : ℕ) (rest : List UInt8) (words : List CString) (left : ℕ)
    (mallocs : Schedule), rest.length < fuel →
    storeTokens fuel rest words.length (partlyStored words ((wordsOf rest).length + left)) mallocs =
      if served (wordsOf rest).length mallocs then
        .ok (partlyStored (words ++ wordsOf rest) left, mallocs.drop (wordsOf rest).length)
      else .error .verify333
  | 0, _, _, _, _, h => absurd h (Nat.not_lt_zero _)
  | fuel + 1, rest, words, left, mallocs, h => by
    rw [storeTokens, wordsOf]
    rcases htoken : strtokR rest with _ | ⟨token, rest'⟩
    · rw [nextToken_eq_none htoken]
      simp [served]
    · obtain ⟨hsplit, hshort⟩ := nextToken_eq_some htoken
      have ih := storeTokens_attempt fuel rest' (words ++ [CString.ofBytes token]) left
        mallocs.tail (by omega)
      rw [List.length_append, List.length_singleton] at ih
      rw [hsplit, List.map_cons, List.length_cons, ← wordsOf, Nat.add_right_comm]
      dsimp only
      rw [Run.bind_ok (malloc_apply mallocs)]
      cases hv : verdict mallocs with
      | false => simp [served, hv]
      | true =>
        rw [Run.verify333_true, Run.pure_bind, storeEntry_next, Run.pure_bind, ih]
        simp [served, hv]

/-! ## The array -/

/-- The string in the buffer. -/
def lineString (line : List UInt8) : List UInt8 := (CString.ofBytes line).bytes

/-- Its last character is a space, or comes after a character that is not a space. -/
def joinedEnd (s : List UInt8) : Bool :=
  s.getLast?.any fun c => c = 32 || s.dropLast.getLast?.any fun d => d ≠ 32

/-- The first pass counts one token more exactly if the last character is one. -/
theorem length_wordsOf_dropLast {s : List UInt8} (hne : s ≠ []) :
    (wordsOf s).length = (wordsOf s.dropLast).length + if joinedEnd s then 0 else 1 := by
  rcases List.eq_nil_or_concat' s with rfl | ⟨front, c, rfl⟩
  · exact absurd rfl hne
  · rw [length_wordsOf, length_wordsOf, length_tokens_concat, joinedEnd]
    simp

/-- `num_split_query` and `query`, unless there is not enough memory. -/
theorem splitQuery_attempt {line : List UInt8} (hne : lineString line ≠ []) (mallocs : Schedule) :
    splitQuery line mallocs =
      if verdict mallocs ∧ served (wordsOf (lineString line).dropLast).length mallocs.tail then
        .ok (((wordsOf (lineString line)).length, partlyStored (wordsOf (lineString line).dropLast)
          (if joinedEnd (lineString line) then 0 else 1)),
          mallocs.tail.drop (wordsOf (lineString line).dropLast).length)
      else .error .verify333 := by
  have hcount := countTokens_eq ((lineString line).length + 1) (lineString line) 0
    (Nat.lt_succ_self _)
  have hstore := storeTokens_attempt ((lineString line).length + 1) (lineString line).dropLast []
    (if joinedEnd (lineString line) then 0 else 1) mallocs.tail
    (by rw [List.length_dropLast]; omega)
  have hfresh : List.replicate (wordsOf (lineString line)).length none =
      partlyStored [] ((wordsOf (lineString line).dropLast).length +
        if joinedEnd (lineString line) then 0 else 1) := by
    rw [← length_wordsOf_dropLast hne]
    rfl
  unfold splitQuery
  dsimp only
  rw [← lineString, hcount, Run.pure_bind, Nat.zero_add, Run.bind_ok (malloc_apply mallocs)]
  cases hv : verdict mallocs with
  | false => simp
  | true =>
    rw [Run.verify333_true, Run.pure_bind, if_neg hne, hfresh, Run.bind_apply]
    rw [List.length_nil, List.nil_append] at hstore
    rw [hstore]
    by_cases hserved : served (wordsOf (lineString line).dropLast).length mallocs.tail = true
    · simp [hserved]
    · simp [hserved]

/-! ## MIProcessQuery on the array -/

theorem readEntry_map {σ : Type} {words : List CString} {i : ℕ} {word : CString}
    (h : words[i]? = some word) : (readEntry (words.map some) i : Run σ CString) = pure word := by
  rw [readEntry, List.getElem?_map, h]
  rfl

/-- One further word, and then the others. -/
theorem intersectWords_cons (index : MemIndex) (word : CString) (words : List CString)
    (retlist : LinkedList SearchResult) :
    intersectWords index (word :: words) retlist =
      intersectWord index word retlist >>= fun res =>
        res.elim (pure none) (intersectWords index words) := by
  rw [intersectWords, intersectWord, Run.bind_assoc]
  refine congrArg _ (funext fun found => ?_)
  obtain ⟨res, kv⟩ := found
  dsimp only
  rw [Run.bind_assoc]
  refine congrArg _ (funext fun _ => ?_)
  split
  · rw [Run.bind_assoc]
    rfl
  · rw [Run.bind_assoc]
    refine congrArg _ (funext fun iter => ?_)
    cases iter with
    | none => rfl
    | some llit =>
      dsimp only
      rw [Run.bind_assoc]
      refine congrArg _ (funext fun wds => ?_)
      rw [Run.bind_assoc]
      refine congrArg _ (funext fun retlist' => ?_)
      split
      · rw [Run.bind_assoc]
        rfl
      · rfl

/-- The first word, and then the others. -/
theorem miProcessQuery_cons (index : MemIndex) (word : CString) (words : List CString) :
    miProcessQuery index (word :: words) =
      allocateLinkedList >>= fun list => list.elim (Run.stop .verify333) fun retlist =>
        firstWordResults index word retlist >>= fun res =>
          res.elim (pure none) (intersectWords index words) := by
  rw [miProcessQuery]
  refine congrArg _ (funext fun list => ?_)
  cases list with
  | none => rfl
  | some retlist =>
    dsimp only [Option.elim]
    rw [firstWordResults, Run.bind_assoc]
    refine congrArg _ (funext fun found => ?_)
    obtain ⟨res, kv⟩ := found
    dsimp only
    rw [Run.bind_assoc]
    refine congrArg _ (funext fun _ => ?_)
    split
    · rw [Run.bind_assoc]
      rfl
    · simp only [Run.bind_assoc]
      refine congrArg _ (funext fun wds => congrArg _ (funext fun set => congrArg _
        (funext fun _ => congrArg _ (funext fun iter => ?_))))
      cases iter with
      | none => rfl
      | some docIDsIter =>
        dsimp only
        refine congrArg _ (funext fun res => ?_)
        cases res <;> rfl

/-- The loop over the stored words is the loop over the words. -/
theorem intersectEntries_eq (index : MemIndex) : ∀ (words before : List CString)
    (retlist : LinkedList SearchResult),
    intersectEntries index ((before ++ words).map some) words.length before.length retlist =
      intersectWords index words retlist
  | [], _, _ => rfl
  | word :: words, before, retlist => by
    have hread : (before ++ word :: words)[before.length]? = some word := by simp
    rw [List.length_cons, intersectEntries, readEntry_map hread, Run.pure_bind,
      intersectWords_cons]
    refine congrArg _ (funext fun res => ?_)
    cases res with
    | none => rfl
    | some retlist' =>
      have ih := intersectEntries_eq index words (before ++ [word]) retlist'
      rw [List.append_assoc, List.length_append] at ih
      exact ih

/-- With every entry stored, `MIProcessQuery` reads nothing else. -/
theorem miProcessQueryArray_eq (index : MemIndex) (words : List CString) :
    miProcessQueryArray index (words.map some) words.length = miProcessQuery index words := by
  cases words with
  | nil => rfl
  | cons word words =>
    rw [miProcessQuery_cons, List.length_cons, miProcessQueryArray]
    refine congrArg _ (funext fun list => ?_)
    cases list with
    | none => rfl
    | some retlist =>
      have hread : (word :: words)[0]? = some word := rfl
      dsimp only [Option.elim]
      rw [readEntry_map hread, Run.pure_bind]
      refine congrArg _ (funext fun res => ?_)
      cases res with
      | none => rfl
      | some retlist' => exact intersectEntries_eq index words [word] retlist'

/-- With every entry stored, so does the loop that frees the words. -/
theorem freeWords_map : ∀ (words before : List CString),
    freeWords ((before ++ words).map some) words.length before.length = pure ⟨⟩
  | [], _ => rfl
  | word :: words, before => by
    have hread : (before ++ word :: words)[before.length]? = some word := by simp
    have ih := freeWords_map words (before ++ [word])
    rw [List.append_assoc, List.length_append] at ih
    rw [List.length_cons, freeWords, readEntry_map hread, Run.pure_bind]
    exact ih

/-- An entry that was not stored ends the loop that frees the words. -/
theorem freeWords_fault {query : QueryArray} {k : ℕ} (hk : query[k]? = some none) :
    ∀ (left i : ℕ) (mallocs : Schedule), i ≤ k → k < i + left →
      freeWords query left i mallocs = .error .fault
  | 0, i, _, hi, hlt => by omega
  | left + 1, i, mallocs, hi, hlt => by
    rw [freeWords]
    rcases Nat.eq_or_lt_of_le hi with rfl | hi
    · rw [readEntry, hk]
      rfl
    · have ih := freeWords_fault hk left (i + 1) mallocs hi (by omega)
      rw [readEntry]
      split
      · exact ih
      · rfl

/-! ## Lines -/

/-- Whatever the allocations do, the shell stops at a `Verify333` or has as many words in
the array as it counted, and `MIProcessQuery` and the loop that frees the words read these
and nothing else. -/
def PassesAgree (line : List UInt8) : Prop :=
  ∀ mallocs, splitQuery line mallocs = .error .verify333 ∨
    ∃ words mallocs', (splitQuery line).Returns mallocs (words.length, words.map some) mallocs' ∧
      (∀ index, miProcessQueryArray index (words.map some) (words.length % 2 ^ 8) =
        miProcessQuery index words) ∧
      freeWords (words.map some) words.length 0 = pure ⟨⟩

/-- A buffer of this size holds few words. -/
theorem length_wordsOf_lt {s : List UInt8} (h : s.length < usrInputSize) :
    (wordsOf s).length < 2 ^ 8 := by
  have hbound := two_mul_length_tokens (p := fun c : UInt8 => c = 32) s
  rw [← length_wordsOf] at hbound
  unfold usrInputSize at h
  omega

theorem length_lineString_le (line : List UInt8) : (lineString line).length ≤ line.length :=
  (List.takeWhile_sublist _).length_le

theorem length_takeLine_le : ∀ (n : ℕ) (stdin : List UInt8), (takeLine n stdin).1.length ≤ n
  | 0, _ => Nat.le_refl _
  | _ + 1, [] => Nat.zero_le _
  | n + 1, c :: stdin => by
    rw [takeLine]
    split
    · simp
    · exact Nat.succ_le_succ (length_takeLine_le n stdin)

/-- What `fgets` stores fits the buffer, with the NUL. -/
theorem length_lt_of_fgets {size : ℕ} (hsize : 0 < size) {stdin line rest : List UInt8}
    (h : fgets size stdin = some (line, rest)) : line.length < size := by
  unfold fgets at h
  split at h
  · cases h
  · have hline : (takeLine (size - 1) stdin).1 = line := congrArg Prod.fst (Option.some.inj h)
    have hle := length_takeLine_le (size - 1) stdin
    rw [hline] at hle
    omega

/-- A line that begins with NUL is written to before its start. -/
theorem splitQuery_nil {line : List UInt8} (h : lineString line = []) (mallocs : Schedule) :
    splitQuery line mallocs = .error (if verdict mallocs then .fault else .verify333) := by
  unfold splitQuery
  dsimp only
  rw [← lineString, h, countTokens_eq _ _ _ (Nat.lt_succ_self _), Run.pure_bind,
    Run.bind_ok (malloc_apply mallocs)]
  cases verdict mallocs <;> rfl

theorem passesAgree_of_joinedEnd {line : List UInt8} (hlen : line.length < usrInputSize)
    (h : joinedEnd (lineString line) = true) : PassesAgree line := by
  have hne : lineString line ≠ [] := by
    intro hnil
    rw [hnil] at h
    cases h
  intro mallocs
  have hrun := splitQuery_attempt hne mallocs
  have hlengths := length_wordsOf_dropLast hne
  rw [if_pos h, Nat.add_zero] at hlengths
  rw [if_pos h, hlengths] at hrun
  split at hrun
  · refine .inr ⟨wordsOf (lineString line).dropLast,
      mallocs.tail.drop (wordsOf (lineString line).dropLast).length, ?_, fun index => ?_,
      freeWords_map (wordsOf (lineString line).dropLast) []⟩
    · rw [Run.Returns, hrun, partlyStored, List.replicate_zero, List.append_nil]
    · have hlt := length_wordsOf_lt (s := (lineString line))
        (Nat.lt_of_le_of_lt (length_lineString_le line) hlen)
      rw [← hlengths, Nat.mod_eq_of_lt hlt, hlengths, miProcessQueryArray_eq]
  · exact .inl hrun

theorem joinedEnd_of_passesAgree {line : List UInt8} (h : PassesAgree line) :
    joinedEnd (lineString line) = true := by
  by_contra hjoined
  rcases h [] with hstop | ⟨words, mallocs', hrun, -⟩
  · by_cases hne : lineString line = []
    · rw [splitQuery_nil hne] at hstop
      cases hstop
    · rw [splitQuery_attempt hne, List.tail_nil, served_nil, if_pos ⟨rfl, rfl⟩] at hstop
      cases hstop
  · by_cases hne : lineString line = []
    · rw [Run.Returns, splitQuery_nil hne] at hrun
      cases hrun
    · rw [Run.Returns, splitQuery_attempt hne, List.tail_nil, served_nil, if_pos ⟨rfl, rfl⟩,
        if_neg hjoined] at hrun
      have hquery : partlyStored (wordsOf (lineString line).dropLast) 1 = words.map some :=
        congrArg (fun r => r.1.2) (Except.ok.inj hrun)
      have hmem : none ∈ words.map some := by
        rw [← hquery]
        simp [partlyStored]
      simp at hmem

/-- The shell does not get over a line whose last character is a word of its own. -/
theorem processLine_never_returns {line : List UInt8} (h : joinedEnd (lineString line) = false)
    (index : MemIndex) (doctable : DocTable) (mallocs mallocs' : Schedule) (printed : CppString) :
    ¬ (processLine index doctable line).Returns mallocs printed mallocs' := by
  intro hrun
  obtain ⟨⟨num, query⟩, m₁, hsplit, hrun⟩ := Run.bind_eq_ok hrun
  have hfree : ∀ m, freeWords query num 0 m = .error .fault := by
    by_cases hne : lineString line = []
    · rw [splitQuery_nil hne] at hsplit
      cases hsplit
    · have hlengths := length_wordsOf_dropLast hne
      rw [splitQuery_attempt hne] at hsplit
      rw [h] at hsplit hlengths
      split at hsplit
      · obtain ⟨rfl, rfl⟩ := Prod.mk.inj (congrArg Prod.fst (Except.ok.inj hsplit))
        intro m
        refine freeWords_fault (k := (wordsOf (lineString line).dropLast).length) ?_ _ _ m
          (Nat.zero_le _) (by rw [hlengths]; simp)
        simp [partlyStored]
      · cases hsplit
  obtain ⟨llres, m₂, -, hrun⟩ := Run.bind_eq_ok hrun
  cases llres with
  | none =>
    obtain ⟨_, m₃, hfreed, -⟩ := Run.bind_eq_ok hrun
    rw [hfree] at hfreed
    cases hfreed
  | some llres =>
    obtain ⟨_, m₃, -, hrun⟩ := Run.bind_eq_ok hrun
    obtain ⟨_, m₄, -, hrun⟩ := Run.bind_eq_ok hrun
    obtain ⟨_, m₅, hfreed, -⟩ := Run.bind_eq_ok hrun
    rw [hfree] at hfreed
    cases hfreed

/-- The lines that `fgets` stores in turn. -/
def linesOf : ℕ → List UInt8 → List (List UInt8)
  | 0, _ => []
  | fuel + 1, stdin => (fgets usrInputSize stdin).elim [] fun r => r.1 :: linesOf fuel r.2

/-- The shell only reaches the end of its input if no line ends in a word of one character
that stands alone. -/
theorem shellLoop_returns {index : MemIndex} {doctable : DocTable} : ∀ (fuel : ℕ)
    {stdin : List UInt8} {mallocs mallocs' : Schedule} {printed : CppString},
    (shellLoop index doctable fuel stdin).Returns mallocs printed mallocs' →
    ∀ line ∈ linesOf fuel stdin, joinedEnd (lineString line) = true
  | 0, _, _, _, _, h => by cases h
  | fuel + 1, stdin, mallocs, mallocs', printed, h => by
    intro line hline
    rw [linesOf] at hline
    rw [shellLoop] at h
    rcases hgets : fgets usrInputSize stdin with _ | ⟨first, rest⟩
    · rw [hgets] at hline
      cases hline
    · rw [hgets] at h hline
      obtain ⟨_, m₁, hfirst, h⟩ := Run.bind_eq_ok h
      obtain ⟨_, m₂, hrest, -⟩ := Run.bind_eq_ok h
      rcases List.mem_cons.mp hline with rfl | hline
      · by_contra hjoined
        exact processLine_never_returns (Bool.eq_false_iff.mpr hjoined) _ _ _ _ _ hfirst
      · exact shellLoop_returns fuel hrest line hline

/-- For every line that `fgets` stores, the passes agree exactly if the string in the buffer
is not empty and its last character is a space, or comes after a character that is not. -/
theorem passes_agree_iff {stdin line rest : List UInt8}
    (h : fgets usrInputSize stdin = some (line, rest)) :
    PassesAgree line ↔ joinedEnd (lineString line) = true :=
  ⟨joinedEnd_of_passesAgree, passesAgree_of_joinedEnd (length_lt_of_fgets (by decide) h)⟩

/-- A query of two words. -/
theorem passes_agree_iff_words : PassesAgree (ascii "black  cat\n") := by
  have hgets : fgets usrInputSize (ascii "black  cat\ndog\n") =
      some (ascii "black  cat\n", ascii "dog\n") := by decide
  exact (passes_agree_iff hgets).mpr (by decide)

/-- A space before the newline: two tokens are counted and one is stored. -/
theorem trailing_space_disagrees :
    fgets usrInputSize (ascii "cat \n") = some (ascii "cat \n", []) ∧
      ¬ PassesAgree (ascii "cat \n") := by
  refine ⟨by decide, fun hagree => ?_⟩
  have hjoined := joinedEnd_of_passesAgree hagree
  revert hjoined
  decide

end MultithreadedWebServer
