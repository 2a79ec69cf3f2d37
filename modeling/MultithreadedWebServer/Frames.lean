import Mathlib.Data.List.Basic

/-!
# Streams cut at a terminator

A stream in which every frame ends with a given terminator is cut just behind each
leftmost occurrence. `frames` lists the complete frames. What makes a framing protocol
independent of how the stream arrives is `findSub_append`: an occurrence found in what
has arrived is the leftmost one of the whole stream.
-/

namespace MultithreadedWebServer

section Frames

variable {α : Type} [DecidableEq α]

/-! ## The leftmost occurrence -/

/-- The offset of the leftmost occurrence of `pat`. -/
def findSub (pat : List α) : List α → Option ℕ
  | [] => if pat = [] then some 0 else none
  | c :: s => if pat <+: c :: s then some 0 else (findSub pat s).map (· + 1)

/-- An occurrence: where it is found, the pattern stands, and inside the string. -/
theorem findSub_eq_some {pat : List α} : ∀ {s : List α} {p : ℕ}, findSub pat s = some p →
    p + pat.length ≤ s.length ∧ pat <+: s.drop p
  | [], p, h => by
    rw [findSub] at h
    split at h
    · obtain rfl := Option.some.inj h
      simp_all
    · cases h
  | c :: s, p, h => by
    rw [findSub] at h
    split at h
    · obtain rfl := Option.some.inj h
      rename_i hpre
      exact ⟨by simpa using hpre.length_le, hpre⟩
    · obtain ⟨q, hq, rfl⟩ := Option.map_eq_some_iff.mp h
      obtain ⟨hlen, hpre⟩ := findSub_eq_some hq
      exact ⟨by rw [List.length_cons]; omega, hpre⟩

/-- Where the pattern is found it stays when the string goes on. -/
theorem findSub_append {pat : List α} (hne : pat ≠ []) : ∀ {s : List α} {p : ℕ} (t : List α),
    findSub pat s = some p → findSub pat (s ++ t) = some p
  | [], p, t, h => by
    rw [findSub, if_neg hne] at h
    cases h
  | c :: s, p, t, h => by
    rw [findSub] at h
    rw [List.cons_append, findSub]
    split at h
    · rename_i hpre
      have hlong : pat <+: c :: (s ++ t) := hpre.trans (List.prefix_append (c :: s) t)
      rw [if_pos hlong]
      exact h
    · rename_i hpre
      obtain ⟨q, hq, rfl⟩ := Option.map_eq_some_iff.mp h
      -- the later occurrence ends inside `s`, so there is room for none further left
      have hfit : ¬ pat <+: c :: (s ++ t) := by
        intro hlong
        obtain ⟨hlen, -⟩ := findSub_eq_some hq
        refine hpre ?_
        have hle : pat.length ≤ (c :: s).length := by rw [List.length_cons]; omega
        exact List.prefix_of_prefix_length_le hlong (List.prefix_append (c :: s) t) hle
      rw [if_neg hfit, findSub_append hne t hq]
      rfl

/-- A pattern is not found before its first element stands. -/
theorem findSub_append_of_not_mem {c : α} {pat l : List α} (hl : c ∉ l) (s : List α) :
    findSub (c :: pat) (l ++ s) = (findSub (c :: pat) s).map (· + l.length) := by
  induction l with
  | nil => simp
  | cons d l ih =>
    rw [List.mem_cons, not_or] at hl
    have hhead : ¬ c :: pat <+: d :: (l ++ s) := fun h => hl.1 (List.cons_prefix_cons.mp h).1
    rw [List.cons_append, findSub, if_neg hhead, ih hl.2, Option.map_map]
    rfl

/-! ## Frames -/

/-- The first frames, at most so many. -/
def framesUpTo (pat : List α) : ℕ → List α → List (List α)
  | 0, _ => []
  | n + 1, s =>
    match findSub pat s with
    | none => []
    | some p => s.take (p + pat.length) :: framesUpTo pat n (s.drop (p + pat.length))

/-- The complete frames of a stream, each with the terminator it ends with. -/
def frames (pat s : List α) : List (List α) := framesUpTo pat s.length s

theorem framesUpTo_eq {pat : List α} (hne : pat ≠ []) : ∀ {m n : ℕ} {s : List α},
    s.length ≤ m → s.length ≤ n → framesUpTo pat m s = framesUpTo pat n s
  | 0, 0, _, _, _ => rfl
  | 0, n + 1, s, hm, _ => by
    obtain rfl := List.length_eq_zero_iff.mp (Nat.le_zero.mp hm)
    simp [framesUpTo, findSub, hne]
  | m + 1, 0, s, _, hn => by
    obtain rfl := List.length_eq_zero_iff.mp (Nat.le_zero.mp hn)
    simp [framesUpTo, findSub, hne]
  | m + 1, n + 1, s, hm, hn => by
    rw [framesUpTo, framesUpTo]
    rcases hp : findSub pat s with _ | p
    · rfl
    · dsimp only
      have hpos := List.length_pos_iff.mpr hne
      rw [framesUpTo_eq hne (m := m) (n := n)]
      · rw [List.length_drop]
        omega
      · rw [List.length_drop]
        omega

theorem frames_of_none {pat s : List α} (h : findSub pat s = none) : frames pat s = [] := by
  unfold frames
  cases s with
  | nil => rfl
  | cons c s => rw [List.length_cons, framesUpTo, h]

theorem frames_of_some {pat s : List α} (hne : pat ≠ []) {p : ℕ} (h : findSub pat s = some p) :
    frames pat s = s.take (p + pat.length) :: frames pat (s.drop (p + pat.length)) := by
  have hpos := List.length_pos_iff.mpr hne
  have hle := (findSub_eq_some h).1
  obtain ⟨n, hn⟩ : ∃ n, s.length = n + 1 := ⟨s.length - 1, by omega⟩
  unfold frames
  rw [hn, framesUpTo, h]
  dsimp only
  rw [framesUpTo_eq hne]
  · rw [List.length_drop]
    omega
  · exact Nat.le_refl _

/-- A frame whose first part does not have the element that the terminator begins with. -/
theorem frames_append {c : α} {pat l : List α} (hl : c ∉ l) (s : List α) :
    frames (c :: pat) (l ++ (c :: pat ++ s)) = (l ++ c :: pat) :: frames (c :: pat) s := by
  have hfind : findSub (c :: pat) (l ++ (c :: pat ++ s)) = some l.length := by
    rw [findSub_append_of_not_mem hl, List.cons_append, findSub,
      if_pos (List.cons_prefix_cons.mpr ⟨rfl, List.prefix_append _ _⟩)]
    simp
  rw [frames_of_some (List.cons_ne_nil _ _) hfind, ← List.append_assoc, ← List.length_append,
    List.take_left, List.drop_left]

theorem frames_eq_nil_iff {pat s : List α} (hne : pat ≠ []) :
    frames pat s = [] ↔ findSub pat s = none := by
  constructor
  · intro h
    rcases hp : findSub pat s with _ | p
    · rfl
    · rw [frames_of_some hne hp] at h
      cases h
  · exact frames_of_none

theorem length_framesUpTo_le (pat : List α) : ∀ (n : ℕ) (s : List α),
    (framesUpTo pat n s).length ≤ n
  | 0, _ => Nat.le_refl 0
  | n + 1, s => by
    rw [framesUpTo]
    rcases findSub pat s with _ | p
    · exact Nat.zero_le _
    · exact Nat.succ_le_succ (length_framesUpTo_le pat n _)

/-- A stream has no more frames than elements. -/
theorem length_frames_le (pat s : List α) : (frames pat s).length ≤ s.length :=
  length_framesUpTo_le pat s.length s

end Frames

end MultithreadedWebServer
