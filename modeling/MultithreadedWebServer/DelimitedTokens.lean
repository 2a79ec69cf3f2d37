import MultithreadedWebServer.MaximalRuns

/-!
# Tokens between delimiters

The tokens of a list are its maximal runs of elements that are not delimiters. `nextToken`
takes the first one off, with the delimiter that ends it; a loop that does so until nothing
is left finds them all. One more element at the end makes a token of its own
(`tokens_concat_alone`), or makes the last token longer (`length_tokens_concat_joined`), or
is a delimiter and changes nothing.

Nothing here is about characters.
-/

namespace MultithreadedWebServer

universe u

section Tokens

variable {α : Type u}

/-- The tokens of a list: what is between the delimiters, unless there is nothing. -/
def tokens (p : α → Bool) (l : List α) : List (List α) :=
  (l.splitOnP p).filter fun token => !token.isEmpty

/-- The first token, and what comes after the delimiter that ends it. -/
def nextToken (p : α → Bool) (l : List α) : Option (List α × List α) :=
  match l.dropWhile p with
  | [] => none
  | c :: rest => some ((c :: rest).takeWhile (!p ·), ((c :: rest).dropWhile (!p ·)).tail)

variable {p : α → Bool} {l : List α}

@[simp] theorem tokens_nil : tokens p [] = [] := rfl

/-- A list without delimiters is one token. -/
theorem tokens_word (h : ∀ c ∈ l, p c = false) (hne : l ≠ []) : tokens p l = [l] := by
  rw [tokens, List.splitOnP_eq_singleton h]
  simp [hne]

/-- A delimiter ends the tokens before it. -/
theorem tokens_append_cons {d : α} (hd : p d = true) (a b : List α) :
    tokens p (a ++ d :: b) = tokens p a ++ tokens p b := by
  rw [tokens, List.splitOnP_append_cons a b hd, List.filter_append]
  rfl

/-- A delimiter in front does not matter. -/
theorem tokens_cons_delimiter {d : α} (hd : p d = true) (l : List α) :
    tokens p (d :: l) = tokens p l :=
  tokens_append_cons hd [] l

/-- Nor does one at the end. -/
theorem tokens_concat_delimiter {d : α} (hd : p d = true) (l : List α) :
    tokens p (l ++ [d]) = tokens p l := by
  rw [tokens_append_cons hd, tokens_nil, List.append_nil]

theorem tokens_dropWhile (l : List α) : tokens p (l.dropWhile p) = tokens p l := by
  induction l with
  | nil => rfl
  | cons c l ih =>
    rw [List.dropWhile_cons]
    split
    · rename_i hc
      rw [ih, tokens_cons_delimiter hc]
    · rfl

/-! ## One token at a time -/

theorem nextToken_eq_none (h : nextToken p l = none) : tokens p l = [] := by
  unfold nextToken at h
  rcases hl : l.dropWhile p with _ | ⟨c, rest⟩
  · rw [← tokens_dropWhile, hl, tokens_nil]
  · rw [hl] at h
    cases h

theorem nextToken_eq_some {token rest : List α} (h : nextToken p l = some (token, rest)) :
    tokens p l = token :: tokens p rest ∧ rest.length < l.length := by
  unfold nextToken at h
  rcases hl : l.dropWhile p with _ | ⟨c, m⟩
  · rw [hl] at h
    cases h
  rw [hl] at h
  obtain ⟨htoken, hrest⟩ := Prod.mk.inj (Option.some.inj h)
  have hc : p c = false := by
    have hhead := List.head?_dropWhile_not p l
    rw [hl] at hhead
    simpa using hhead
  have hword : ∀ d ∈ token, p d = false := by
    intro d hd
    rw [← htoken] at hd
    simpa using List.mem_takeWhile_imp hd
  have hne : token ≠ [] := by
    rw [← htoken, List.takeWhile_cons_of_pos (by simp [hc])]
    exact List.cons_ne_nil _ _
  have hsplit : l.dropWhile p = token ++ (c :: m).dropWhile (!p ·) := by
    rw [hl, ← htoken, List.takeWhile_append_dropWhile]
  have hlen : (l.dropWhile p).length ≤ l.length := (List.dropWhile_sublist p).length_le
  have hpos : 0 < token.length := List.length_pos_iff.mpr hne
  rw [← tokens_dropWhile, hsplit, ← hrest]
  rw [hsplit, List.length_append] at hlen
  rcases hr : (c :: m).dropWhile (!p ·) with _ | ⟨d, r⟩
  · rw [hr] at hlen
    rw [List.append_nil, tokens_word hword hne]
    exact ⟨rfl, by rw [List.tail_nil, List.length_nil] at *; omega⟩
  · have hd : p d = true := by
      have hhead := List.head?_dropWhile_not (!p ·) (c :: m)
      rw [hr] at hhead
      simpa using hhead
    rw [hr, List.length_cons] at hlen
    rw [tokens_append_cons hd, tokens_word hword hne]
    exact ⟨rfl, by rw [List.tail_cons]; omega⟩

/-! ## One more element -/

/-- Nothing goes over the end of a list that ends in a delimiter, or is empty. -/
theorem tokens_append {a : List α} (ha : ∀ d ∈ a.getLast?, p d = true) (b : List α) :
    tokens p (a ++ b) = tokens p a ++ tokens p b := by
  rcases List.eq_nil_or_concat' a with rfl | ⟨a, d, rfl⟩
  · rfl
  · have hd : p d = true := ha d (by simp)
    rw [List.append_assoc, List.singleton_append, tokens_append_cons hd,
      tokens_concat_delimiter hd]

/-- After a delimiter, or at the start, one more element is a token of its own. -/
theorem tokens_concat_alone {c : α} (hl : ∀ d ∈ l.getLast?, p d = true) (hc : p c = false) :
    tokens p (l ++ [c]) = tokens p l ++ [[c]] := by
  rw [tokens_append hl, tokens_word (by simp [hc]) (List.cons_ne_nil c [])]

/-- After the end of a token one more element belongs to that token. -/
theorem length_tokens_concat_joined {c d : α} (hl : l.getLast? = some d) (hd : p d = false)
    (hc : p c = false) : (tokens p (l ++ [c])).length = (tokens p l).length := by
  have hends : ∀ e ∈ (l.rdropWhile (!p ·)).getLast?, p e = true := by
    intro e he
    simpa using getLast?_rdropWhile (p := (!p ·)) l e he
  have hword : ∀ e ∈ l.rtakeWhile (!p ·), p e = false := by
    intro e he
    simpa using List.mem_rtakeWhile_imp he
  have hne : l.rtakeWhile (!p ·) ≠ [] := by
    intro hnil
    obtain ⟨front, rfl⟩ := List.getLast?_eq_some_iff.mp hl
    rw [List.rtakeWhile_concat_pos _ _ _ (by simp [hd])] at hnil
    simp at hnil
  have hwordc : ∀ e ∈ l.rtakeWhile (!p ·) ++ [c], p e = false := by
    intro e he
    rcases List.mem_append.mp he with he | he
    · exact hword e he
    · rw [List.mem_singleton.mp he, hc]
  rw [← List.rdropWhile_append_rtakeWhile (p := (!p ·)) (l := l), List.append_assoc,
    tokens_append hends, tokens_append hends, tokens_word hword hne,
    tokens_word hwordc (by simp), List.length_append, List.length_append]
  rfl

/-- One more element is one more token, unless it is a delimiter or follows a token. -/
theorem length_tokens_concat (l : List α) (c : α) :
    (tokens p (l ++ [c])).length =
      (tokens p l).length + if p c || l.getLast?.any (!p ·) then 0 else 1 := by
  cases hc : p c with
  | true => simp [tokens_concat_delimiter hc]
  | false =>
    rcases hl : l.getLast? with _ | d
    · rw [tokens_concat_alone (by simp [hl]) hc]
      simp
    · cases hd : p d with
      | true =>
        rw [tokens_concat_alone (by simp [hl, hd]) hc]
        simp [hd]
      | false =>
        rw [length_tokens_concat_joined hl hd hc]
        simp [hd]

/-- Every token but the last takes up at least two elements. -/
theorem two_mul_length_tokens (l : List α) :
    2 * (tokens p l).length + (if l.getLast?.any p then 1 else 0) ≤ l.length + 1 := by
  induction l using List.reverseRecOn with
  | nil => simp
  | append_singleton l c ih =>
    rw [length_tokens_concat, List.length_append, List.length_singleton, List.getLast?_concat,
      Option.any_some]
    rcases hl : l.getLast? with _ | d
    · rw [List.getLast?_eq_none_iff.mp hl]
      cases hc : p c <;> simp
    · rw [hl, Option.any_some] at ih
      cases hc : p c <;> cases hd : p d <;> simp [hd] at ih ⊢ <;> omega

end Tokens

end MultithreadedWebServer
