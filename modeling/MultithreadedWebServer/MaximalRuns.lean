import Mathlib.Data.List.DropRight
import Mathlib.Data.List.TakeWhile

/-!
# Maximal runs in a list

A run of a predicate is a non-empty stretch of elements that satisfy it, with none that
does right before or right after. `closedRuns` collects, from left to right, the runs
that are followed by another element: what a scanner finds that reports a run when it
sees its end. `mem_closedRuns_iff` says it finds exactly those.

Nothing here is about characters or words.
-/

namespace MultithreadedWebServer

universe u

section Runs

variable {α : Type u} {p : α → Bool} {l : List α}

/-- `w` is a maximal run of `p` in `l`, starting at offset `s`, with `post` behind it. -/
structure IsRunBefore (p : α → Bool) (l : List α) (s : ℕ) (w post : List α) : Prop where
  /-- where it lies -/
  split : ∃ pre, l = pre ++ (w ++ post) ∧ pre.length = s ∧ ∀ c ∈ pre.getLast?, p c = false
  /-- not empty -/
  ne : w ≠ []
  /-- all of it satisfies the predicate -/
  all : ∀ c ∈ w, p c = true
  /-- and it ends there -/
  stops : ∀ c ∈ post.head?, p c = false

/-- The runs that are followed by another element, each with its offset. `pos` is the
offset of the rest, `acc` the run that is open there. -/
def closedRuns (p : α → Bool) : ℕ → List α → List α → List (ℕ × List α)
  | _, _, [] => []
  | pos, acc, c :: cs =>
    if p c then closedRuns p (pos + 1) (acc ++ [c]) cs
    else if acc.length = 0 then closedRuns p (pos + 1) [] cs
    else (pos - acc.length, acc) :: closedRuns p (pos + 1) [] cs

/-- Of two stretches that end at the same place, the longer one contains the element
before the shorter one. -/
theorem eq_of_append_eq {pre acc pre' w : List α} (h : pre ++ acc = pre' ++ w)
    (hacc : ∀ c ∈ acc, p c = true) (hpre : ∀ c ∈ pre.getLast?, p c = false)
    (hw : ∀ c ∈ w, p c = true) (hpre' : ∀ c ∈ pre'.getLast?, p c = false) :
    pre = pre' ∧ acc = w := by
  rcases List.append_eq_append_iff.mp h with ⟨m, hm, hacc'⟩ | ⟨m, hm, hw'⟩
  · rcases List.eq_nil_or_concat' m with rfl | ⟨m, c, rfl⟩
    · exact ⟨by simpa using hm.symm, by simpa using hacc'⟩
    · have htrue := hacc c (by rw [hacc']; simp)
      have hfalse := hpre' c (by rw [hm, ← List.append_assoc, List.getLast?_concat]; rfl)
      rw [htrue] at hfalse
      cases hfalse
  · rcases List.eq_nil_or_concat' m with rfl | ⟨m, c, rfl⟩
    · exact ⟨by simpa using hm, by simpa using hw'.symm⟩
    · have htrue := hw c (by rw [hw']; simp)
      have hfalse := hpre c (by rw [hm, ← List.append_assoc, List.getLast?_concat]; rfl)
      rw [htrue] at hfalse
      cases hfalse

/-- A run that ends where the open run does is the open run. -/
theorem IsRunBefore.eq_open {pre acc rest w post : List α} {s : ℕ}
    (h : IsRunBefore p (pre ++ acc ++ rest) s w post) (hacc : ∀ c ∈ acc, p c = true)
    (hpre : ∀ c ∈ pre.getLast?, p c = false) (hend : (pre ++ acc).length = s + w.length) :
    pre.length = s ∧ acc = w ∧ rest = post := by
  obtain ⟨⟨pre', hsplit, hs, hpre'⟩, -, hw, -⟩ := h
  have hlen : (pre ++ acc).length = (pre' ++ w).length := by
    rw [hend, List.length_append, hs]
  rw [← List.append_assoc] at hsplit
  obtain ⟨happ, hpost⟩ := List.append_inj hsplit hlen
  obtain ⟨rfl, rfl⟩ := eq_of_append_eq happ hacc hpre hw hpre'
  exact ⟨hs, rfl, hpost⟩

/-- The scan finds exactly the runs that end before the last element, from where it is:
`pre` is behind it, `acc` is the run that is open. -/
theorem mem_closedRuns : ∀ (rest : List α) {pre acc : List α} {s : ℕ} {w : List α},
    (∀ c ∈ acc, p c = true) → (∀ c ∈ pre.getLast?, p c = false) →
    ((s, w) ∈ closedRuns p (pre ++ acc).length acc rest ↔
      ∃ post, post ≠ [] ∧ IsRunBefore p (pre ++ acc ++ rest) s w post ∧
        (pre ++ acc).length ≤ s + w.length)
  | [], pre, acc, s, w, _, _ => by
    rw [closedRuns]
    refine iff_of_false List.not_mem_nil ?_
    rintro ⟨post, hne, ⟨⟨pre', hsplit, hs, -⟩, -, -, -⟩, hle⟩
    have hlen := congrArg List.length hsplit
    have hpos := List.length_pos_iff.mpr hne
    simp only [List.length_append, List.append_nil] at hlen hle
    omega
  | c :: cs, pre, acc, s, w, hacc, hpre => by
    by_cases hc : p c = true
    · -- the open run goes on
      have hacc' : ∀ d ∈ acc ++ [c], p d = true := by
        intro d hd
        rcases List.mem_append.mp hd with hd | hd
        · exact hacc d hd
        · rw [List.mem_singleton.mp hd]
          exact hc
      have ih := mem_closedRuns cs (s := s) (w := w) hacc' hpre
      rw [closedRuns, if_pos hc]
      have hlist : pre ++ (acc ++ [c]) ++ cs = pre ++ acc ++ c :: cs := by simp
      have hpos : (pre ++ (acc ++ [c])).length = (pre ++ acc).length + 1 := by simp; omega
      rw [hlist, hpos] at ih
      rw [ih]
      refine exists_congr fun post => and_congr_right fun hne => and_congr_right fun hrun => ?_
      refine ⟨Nat.le_of_succ_le, fun hle => Nat.lt_of_le_of_ne hle fun heq => ?_⟩
      obtain ⟨-, -, rfl⟩ := hrun.eq_open hacc hpre heq
      have hfalse := hrun.stops c rfl
      rw [hc] at hfalse
      cases hfalse
    · have hfalse : p c = false := Bool.eq_false_iff.mpr hc
      rw [closedRuns, if_neg hc]
      have hlast : ∀ d ∈ (pre ++ acc ++ [c]).getLast?, p d = false := by
        intro d hd
        rw [List.getLast?_concat] at hd
        rw [← Option.some.inj hd]
        exact hfalse
      have ih := mem_closedRuns cs (s := s) (w := w) (fun d hd => absurd hd List.not_mem_nil) hlast
      have hlist : pre ++ acc ++ [c] ++ [] ++ cs = pre ++ acc ++ c :: cs := by simp
      have hpos : (pre ++ acc ++ [c] ++ []).length = (pre ++ acc).length + 1 := by simp; omega
      rw [hlist, hpos] at ih
      by_cases hnil : acc.length = 0
      · rw [if_pos hnil, ih]
        refine exists_congr fun post => and_congr_right fun hne => and_congr_right fun hrun => ?_
        refine ⟨Nat.le_of_succ_le, fun hle => Nat.lt_of_le_of_ne hle fun heq => ?_⟩
        obtain ⟨-, rfl, -⟩ := hrun.eq_open hacc hpre heq
        exact hrun.ne (List.length_eq_zero_iff.mp hnil)
      · rw [if_neg hnil, List.mem_cons, ih]
        constructor
        · rintro (heq | ⟨post, hne, hrun, hle⟩)
          · obtain ⟨rfl, rfl⟩ := Prod.mk.inj heq
            have hs : (pre ++ w).length - w.length = pre.length := by simp
            refine ⟨c :: cs, by simp, ⟨⟨pre, by simp, hs.symm, hpre⟩, ?_, hacc, ?_⟩, ?_⟩
            · exact fun h => hnil (by rw [h]; rfl)
            · simpa using hfalse
            · omega
          · exact ⟨post, hne, hrun, Nat.le_of_succ_le hle⟩
        · rintro ⟨post, hne, hrun, hle⟩
          rcases Nat.eq_or_lt_of_le hle with heq | hlt
          · obtain ⟨hs, rfl, -⟩ := hrun.eq_open hacc hpre heq
            refine .inl (Prod.ext ?_ rfl)
            simp [← hs]
          · exact .inr ⟨post, hne, hrun, hlt⟩

/-- The scan finds exactly the runs that end before the last element. -/
theorem mem_closedRuns_iff {s : ℕ} {w : List α} :
    (s, w) ∈ closedRuns p 0 [] l ↔ ∃ post, post ≠ [] ∧ IsRunBefore p l s w post := by
  have h : (s, w) ∈ closedRuns p ([] ++ [] : List α).length [] l ↔ ∃ post, post ≠ [] ∧
      IsRunBefore p ([] ++ [] ++ l) s w post ∧ ([] ++ [] : List α).length ≤ s + w.length :=
    mem_closedRuns l (fun c hc => absurd hc List.not_mem_nil) (by simp)
  simpa using h

/-- A run is determined by its offset. -/
theorem IsRunBefore.unique {s : ℕ} {w w' post post' : List α} (h : IsRunBefore p l s w post)
    (h' : IsRunBefore p l s w' post') : w = w' ∧ post = post' := by
  obtain ⟨⟨pre, hsplit, hs, -⟩, -, hall, hstops⟩ := h
  obtain ⟨⟨pre', hsplit', hs', -⟩, -, hall', hstops'⟩ := h'
  obtain ⟨-, hrest⟩ := List.append_inj (hsplit.symm.trans hsplit') (hs.trans hs'.symm)
  rcases List.append_eq_append_iff.mp hrest with ⟨m, hm, hpost⟩ | ⟨m, hm, hpost⟩
  · rcases m with _ | ⟨c, m⟩
    · exact ⟨by simpa using hm.symm, by simpa using hpost⟩
    · have htrue := hall' c (by rw [hm]; simp)
      have hfalse := hstops c (by rw [hpost]; simp)
      rw [htrue] at hfalse
      cases hfalse
  · rcases m with _ | ⟨c, m⟩
    · exact ⟨by simpa using hm, by simpa using hpost.symm⟩
    · have htrue := hall c (by rw [hm]; simp)
      have hfalse := hstops' c (by rw [hpost]; simp)
      rw [htrue] at hfalse
      cases hfalse

/-- The element before what `rdropWhile` took off does not satisfy the predicate. -/
theorem getLast?_rdropWhile (l : List α) : ∀ c ∈ (l.rdropWhile p).getLast?, p c = false := by
  intro c hc
  have hne : l.rdropWhile p ≠ [] := by
    rintro hnil
    rw [hnil] at hc
    cases hc
  rw [List.getLast?_eq_some_getLast hne] at hc
  rw [← Option.some.inj hc]
  exact Bool.eq_false_iff.mpr (List.rdropWhile_last_not p l hne)

end Runs

end MultithreadedWebServer
