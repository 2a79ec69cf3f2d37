import Mathlib.Data.List.TakeWhile
import MultithreadedWebServer.ByteStrings

/-!
# Tokens

What `boost::split` makes of a string that is put together from tokens. Without compression
a delimiter ends a token; with compression a run of delimiters does.
-/

namespace MultithreadedWebServer

section Tokens

variable {delimiters s : CppString}

/-! ## Every delimiter counts -/

theorem split_ne_nil (delimiters s : CppString) : split delimiters s ≠ [] :=
  List.splitOnP_ne_nil _ s

/-- A string without delimiters is one token. -/
theorem split_eq_singleton (h : ∀ c ∈ s, c ∉ delimiters) : split delimiters s = [s] :=
  List.splitOnP_eq_singleton fun c hc => decide_eq_false (h c hc)

/-- The first token ends at the first delimiter. -/
theorem split_append_cons {c : UInt8} (hc : c ∈ delimiters) (h : ∀ d ∈ s, d ∉ delimiters)
    (rest : CppString) : split delimiters (s ++ c :: rest) = s :: split delimiters rest :=
  List.splitOnP_append_cons_of_forall_mem (fun d hd => decide_eq_false (h d hd)) c
    (decide_eq_true hc) rest

/-- The first token, and what comes after it if there is a delimiter. -/
theorem split_cases (delimiters s : CppString) :
    ((∀ c ∈ s, c ∉ delimiters) ∧ split delimiters s = [s]) ∨
    ∃ token c rest, s = token ++ c :: rest ∧ c ∈ delimiters ∧ (∀ d ∈ token, d ∉ delimiters) ∧
      split delimiters s = token :: split delimiters rest := by
  induction s with
  | nil => exact .inl ⟨nofun, rfl⟩
  | cons d s ih =>
    by_cases hd : d ∈ delimiters
    · have hnil : ∀ c ∈ ([] : CppString), c ∉ delimiters := fun _ hc => nomatch hc
      exact .inr ⟨[], d, s, rfl, hd, hnil, split_append_cons hd hnil s⟩
    · rcases ih with ⟨hnone, -⟩ | ⟨token, c, rest, rfl, hc, htoken, -⟩
      · have hall : ∀ c ∈ d :: s, c ∉ delimiters := List.forall_mem_cons.mpr ⟨hd, hnone⟩
        exact .inl ⟨hall, split_eq_singleton hall⟩
      · have hall : ∀ c ∈ d :: token, c ∉ delimiters := List.forall_mem_cons.mpr ⟨hd, htoken⟩
        exact .inr ⟨d :: token, c, rest, rfl, hc, hall, split_append_cons hc hall rest⟩

/-- After a delimiter at the end there is an empty token. -/
theorem split_append_delimiter {c : UInt8} (hc : c ∈ delimiters) (s : CppString) :
    split delimiters (s ++ [c]) = split delimiters s ++ [[]] := by
  induction s with
  | nil => exact split_append_cons hc (fun _ hd => nomatch hd) (s := []) []
  | cons d s ih =>
    unfold split at ih ⊢
    rw [List.cons_append, List.splitOnP_cons_eq_if_modifyHead,
      List.splitOnP_cons_eq_if_modifyHead, ih]
    split
    · rfl
    · obtain ⟨token, tokens, htokens⟩ := List.exists_cons_of_ne_nil (split_ne_nil delimiters s)
      rw [split] at htokens
      rw [htokens]
      rfl

/-- The first token is what comes before the first delimiter. -/
theorem head_split (c : UInt8) (s : CppString) :
    ∃ tokens, split [c] s = s.takeWhile (· ≠ c) :: tokens := by
  rcases split_cases [c] s with ⟨hnone, hsplit⟩ | ⟨token, d, rest, rfl, hd, htoken, hsplit⟩
  · have hall : ∀ d ∈ s, decide (d ≠ c) = true := by
      intro d hin
      rw [decide_eq_true_iff]
      exact fun heq => hnone d hin (List.mem_singleton.mpr heq)
    exact ⟨[], by rw [hsplit, List.takeWhile_eq_self_iff.mpr hall]⟩
  · obtain rfl := List.mem_singleton.mp hd
    have hall : ∀ e ∈ token, decide (e ≠ d) = true := by
      intro e hin
      rw [decide_eq_true_iff]
      exact fun heq => htoken e hin (List.mem_singleton.mpr heq)
    refine ⟨_, hsplit.trans (congrArg (· :: _) ?_)⟩
    rw [List.takeWhile_append_of_pos hall, List.takeWhile_cons_of_neg (by simp), List.append_nil]

/-- The second token is what comes between the first two delimiters. -/
theorem second_split (c : UInt8) (s : CppString) : (split [c] s)[1]? =
    if c ∈ s then some (((s.dropWhile (· ≠ c)).drop 1).takeWhile (· ≠ c)) else none := by
  rcases split_cases [c] s with ⟨hnone, hsplit⟩ | ⟨token, d, rest, rfl, hd, htoken, hsplit⟩
  · rw [hsplit, if_neg fun hin => hnone c hin List.mem_cons_self]
    rfl
  · obtain rfl := List.mem_singleton.mp hd
    have hall : ∀ e ∈ token, decide (e ≠ d) = true := by
      intro e hin
      rw [decide_eq_true_iff]
      exact fun heq => htoken e hin (List.mem_singleton.mpr heq)
    obtain ⟨tokens, hrest⟩ := head_split d rest
    rw [hsplit, hrest, if_pos (by simp), List.dropWhile_append_of_pos hall,
      List.dropWhile_cons_of_neg (by simp)]
    rfl

/-- The words with a character between them. -/
def joinWords (c : UInt8) (words : List CppString) : CppString := [c].intercalate words

theorem mem_joinWords {c d : UInt8} {words : List CppString} (h : d ∈ joinWords c words) :
    (∃ w ∈ words, d ∈ w) ∨ d = c := by
  induction words with
  | nil => cases h
  | cons w words ih =>
    cases words with
    | nil =>
      rw [joinWords, List.intercalate_singleton] at h
      exact .inl ⟨w, List.mem_cons_self, h⟩
    | cons w' words =>
      rw [joinWords, List.intercalate_cons_cons, List.mem_append, List.mem_append,
        List.mem_singleton] at h
      rcases h with (h | h) | h
      · exact .inl ⟨w, List.mem_cons_self, h⟩
      · exact .inr h
      · exact (ih h).imp_left fun ⟨v, hv, hd⟩ => ⟨v, List.mem_cons_of_mem _ hv, hd⟩

/-- Splitting takes apart what was joined. -/
theorem split_joinWords {c : UInt8} {words : List CppString} (hne : words ≠ [])
    (h : ∀ w ∈ words, c ∉ w) : split [c] (joinWords c words) = words := by
  have hsplit : split [c] (joinWords c words) = (joinWords c words).splitOn c := by
    rw [split, List.splitOn_eq_splitOnP]
    refine congrArg (fun p => List.splitOnP p _) (funext fun d => ?_)
    rw [Bool.eq_iff_iff]
    simp
  rw [hsplit]
  exact List.splitOn_intercalate c h hne

/-! ## Runs of delimiters count once -/

/-- A string without delimiters is one token. -/
theorem splitCompress_eq_singleton (h : ∀ c ∈ s, c ∉ delimiters) :
    splitCompress delimiters s = [s] := by
  rw [splitCompress, split_eq_singleton h]

/-- After a delimiter at the end the tokens but the first are the ones that are not empty,
and an empty one. -/
theorem splitCompress_append_delimiter {c : UInt8} (hc : c ∈ delimiters) (s : CppString) :
    splitCompress delimiters (s ++ [c]) = (split delimiters s).headD [] ::
      ((split delimiters s).drop 1).filter (· ≠ []) ++ [[]] := by
  obtain ⟨token, tokens, htokens⟩ := List.exists_cons_of_ne_nil (split_ne_nil delimiters s)
  rw [splitCompress, split_append_delimiter hc, htokens]
  cases tokens with
  | nil => rfl
  | cons token' tokens =>
    have hlast : (token' :: tokens ++ [[]]).dropLast = token' :: tokens := List.dropLast_concat
    have hgetLast : (token' :: tokens ++ [[]]).getLastD [] = [] := List.getLastD_concat
    rw [List.cons_append] at hlast hgetLast
    simp only [List.cons_append, hlast, hgetLast]
    rfl

/-- What starts with something else than a delimiter does not start with an empty token. -/
theorem head_split_ne_nil {c : UInt8} (hc : c ∉ delimiters) {token : CppString}
    {tokens : List CppString} (h : split delimiters (c :: s) = token :: tokens) : token ≠ [] := by
  rintro rfl
  rcases split_cases delimiters (c :: s) with ⟨-, hsplit⟩ | ⟨token, d, rest, hs, hd, -, hsplit⟩
  · rw [hsplit] at h
    cases h
  · rw [hsplit] at h
    obtain rfl : token = [] := (List.cons.inj h).1
    obtain rfl : c = d := (List.cons.inj hs).1
    exact hc hd

/-- The first token ends at the first delimiter, and the next one starts after the last
delimiter of the run. -/
theorem splitCompress_append {run rest : CppString} (h : ∀ c ∈ s, c ∉ delimiters)
    (hrun : ∀ c ∈ run, c ∈ delimiters) (hne : run ≠ [])
    (hrest : ∀ c ∈ rest.head?, c ∉ delimiters) :
    splitCompress delimiters (s ++ run ++ rest) = s :: splitCompress delimiters rest := by
  obtain ⟨d, run, rfl⟩ := List.exists_cons_of_ne_nil hne
  obtain ⟨hd, hrun⟩ := List.forall_mem_cons.mp hrun
  -- the run leaves as many empty tokens as it has further delimiters
  have hempty : split delimiters (run ++ rest) =
      List.replicate run.length [] ++ split delimiters rest := by
    clear * - hrun
    induction run with
    | nil => rfl
    | cons e run ih =>
      obtain ⟨he, hrun⟩ := List.forall_mem_cons.mp hrun
      have hfirst := split_append_cons he (fun _ hc => nomatch hc) (s := []) (run ++ rest)
      rw [ih hrun] at hfirst
      exact hfirst
  have hsplit : split delimiters (s ++ d :: run ++ rest) =
      s :: (List.replicate run.length [] ++ split delimiters rest) := by
    rw [List.append_assoc, List.cons_append, split_append_cons hd h, hempty]
  obtain ⟨token, tokens, htokens⟩ := List.exists_cons_of_ne_nil (split_ne_nil delimiters rest)
  have hfilter : (List.replicate run.length ([] : CppString)).filter (· ≠ []) = [] := by
    rw [List.filter_replicate_of_neg (by simp)]
  have hcompress : splitCompress delimiters (s ++ d :: run ++ rest) =
      s :: ((List.replicate run.length [] ++ token :: tokens).dropLast.filter (· ≠ []) ++
        [(List.replicate run.length [] ++ token :: tokens).getLastD []]) := by
    rw [splitCompress, hsplit, htokens]
    cases run.length <;> rfl
  rw [hcompress, splitCompress, htokens, List.dropLast_append_of_ne_nil (List.cons_ne_nil _ _),
    List.filter_append, hfilter, List.nil_append]
  cases tokens with
  | nil => simp
  | cons token' tokens =>
    have htoken : token ≠ [] := by
      cases rest with
      | nil => cases htokens
      | cons c rest => exact head_split_ne_nil (hrest c rfl) htokens
    simp [htoken, List.getLast?_cons]

/-- The first token, and what comes after the run if there is a delimiter. -/
theorem splitCompress_cases (delimiters s : CppString) :
    ((∀ c ∈ s, c ∉ delimiters) ∧ splitCompress delimiters s = [s]) ∨
    ∃ token run rest, s = token ++ run ++ rest ∧ (∀ c ∈ token, c ∉ delimiters) ∧
      (∀ c ∈ run, c ∈ delimiters) ∧ run ≠ [] ∧ (∀ c ∈ rest.head?, c ∉ delimiters) ∧
      splitCompress delimiters s = token :: splitCompress delimiters rest := by
  rcases split_cases delimiters s with ⟨hnone, -⟩ | ⟨token, c, rest, rfl, hc, htoken, -⟩
  · exact .inl ⟨hnone, splitCompress_eq_singleton hnone⟩
  · have hrun : ∀ d ∈ c :: rest.takeWhile (· ∈ delimiters), d ∈ delimiters := by
      refine List.forall_mem_cons.mpr ⟨hc, fun d hd => ?_⟩
      have hin := List.mem_takeWhile_imp hd
      simpa using hin
    have hrest : ∀ d ∈ (rest.dropWhile (· ∈ delimiters)).head?, d ∉ delimiters := by
      intro d hd
      have hnot := List.head?_dropWhile_not (· ∈ delimiters) rest
      rw [Option.mem_def.mp hd] at hnot
      simpa using hnot
    have hsplit : token ++ c :: rest = token ++ (c :: rest.takeWhile (· ∈ delimiters)) ++
        rest.dropWhile (· ∈ delimiters) := by
      rw [List.append_assoc, List.cons_append, List.takeWhile_append_dropWhile]
    refine .inr ⟨token, _, _, hsplit, htoken, hrun, List.cons_ne_nil _ _, hrest, ?_⟩
    rw [hsplit]
    exact splitCompress_append htoken hrun (List.cons_ne_nil _ _) hrest

/-- The first token is what comes before the first delimiter. -/
theorem head_splitCompress (delimiters s : CppString) :
    ∃ tokens, splitCompress delimiters s = s.takeWhile (· ∉ delimiters) :: tokens := by
  rcases splitCompress_cases delimiters s with
    ⟨hnone, hsplit⟩ | ⟨token, run, rest, rfl, htoken, hrun, hne, -, hsplit⟩
  · refine ⟨[], ?_⟩
    rw [hsplit, List.takeWhile_eq_self_iff.mpr fun c hc => decide_eq_true (hnone c hc)]
  · obtain ⟨c, run, rfl⟩ := List.exists_cons_of_ne_nil hne
    refine ⟨_, hsplit.trans (congrArg (· :: _) ?_)⟩
    have hc : decide (c ∉ delimiters) = false := by simpa using hrun c List.mem_cons_self
    rw [List.append_assoc, List.takeWhile_append_of_pos (by simpa using htoken),
      List.cons_append, List.takeWhile_cons_of_neg (by simpa using hc), List.append_nil]

/-- There is a second token exactly if there is a delimiter. -/
theorem second_splitCompress (delimiters s : CppString) :
    (∃ token token' tokens, splitCompress delimiters s = token :: token' :: tokens) ↔
      ∃ c ∈ s, c ∈ delimiters := by
  rcases splitCompress_cases delimiters s with
    ⟨hnone, hsplit⟩ | ⟨token, run, rest, rfl, -, hrun, hne, -, hsplit⟩
  · rw [hsplit]
    constructor
    · rintro ⟨_, _, _, h⟩
      cases h
    · rintro ⟨c, hc, hdelim⟩
      exact absurd hdelim (hnone c hc)
  · obtain ⟨c, hc⟩ := List.exists_mem_of_ne_nil run hne
    obtain ⟨token', tokens, htokens⟩ :=
      List.exists_cons_of_ne_nil (splitCompress_ne_nil delimiters rest)
    refine ⟨fun _ => ⟨c, by simp [hc], hrun c hc⟩, fun _ => ⟨token, token', tokens, ?_⟩⟩
    rw [hsplit, htokens]

end Tokens

end MultithreadedWebServer
