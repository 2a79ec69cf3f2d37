import Mathlib.Data.List.Chain
import Mathlib.Data.List.Perm.Basic

/-!
# Bubble sort on sequences

Bubble sort over an arbitrary type, driven by a decidable relation `swaps x y` that
says when two neighbours change places. Nothing is assumed of it but what each
lemma names:

* asymmetry makes every pass with a swap lower the number of inversions, so the
  repetition ends (`bubbleLoop_terminates`);
* transitivity of its complement turns a pass without a swap into sortedness;
* elements of a class that has no two elements out of place keep their order, which
  leaves one sorted sequence only (`eq_of_sorted_of_filter`).
-/

namespace MultithreadedWebServer

universe u

section Bubble

variable {α : Type u} (swaps : α → α → Bool)

/-- One pass: neighbours that are out of place change places, left to right. The
flag tells whether anything moved. -/
def bubblePass : List α → List α × Bool
  | [] => ([], false)
  | [x] => ([x], false)
  | x :: y :: l =>
    if swaps x y then (y :: (bubblePass (x :: l)).1, true)
    else (x :: (bubblePass (y :: l)).1, (bubblePass (y :: l)).2)
termination_by l => l.length

/-- Passes until one moves nothing, at most `fuel` of them. -/
def bubbleLoop : ℕ → List α → Option (List α)
  | 0, _ => none
  | fuel + 1, l =>
    if (bubblePass swaps l).2 then bubbleLoop fuel (bubblePass swaps l).1
    else some (bubblePass swaps l).1

/-- The number of pairs that stand in the wrong order. -/
def inversions : List α → ℕ
  | [] => 0
  | x :: l => l.countP (swaps x) + inversions l

variable {swaps}

theorem bubblePass_swap {x y : α} (h : swaps x y = true) (l : List α) :
    bubblePass swaps (x :: y :: l) = (y :: (bubblePass swaps (x :: l)).1, true) := by
  rw [bubblePass, if_pos h]

theorem bubblePass_keep {x y : α} (h : swaps x y = false) (l : List α) :
    bubblePass swaps (x :: y :: l) =
      (x :: (bubblePass swaps (y :: l)).1, (bubblePass swaps (y :: l)).2) := by
  rw [bubblePass, if_neg (by rw [h]; exact Bool.false_ne_true)]

/-- A pass permutes. -/
theorem bubblePass_perm (l : List α) : (bubblePass swaps l).1.Perm l := by
  induction l using bubblePass.induct swaps with
  | case1 => simp [bubblePass]
  | case2 x => simp [bubblePass]
  | case3 x y l h ih =>
    rw [bubblePass_swap h]
    exact (ih.cons y).trans (List.Perm.swap x y l)
  | case4 x y l h ih =>
    rw [bubblePass_keep (Bool.eq_false_iff.mpr h)]
    exact ih.cons x

/-- A pass that moves nothing found every pair of neighbours in place. -/
theorem bubblePass_still (l : List α) (h : (bubblePass swaps l).2 = false) :
    (bubblePass swaps l).1 = l ∧ l.IsChain fun x y => swaps x y = false := by
  induction l using bubblePass.induct swaps with
  | case1 => simp [bubblePass]
  | case2 x => simp [bubblePass]
  | case3 x y l hs ih =>
    rw [bubblePass_swap hs] at h
    cases h
  | case4 x y l hs ih =>
    have hs : swaps x y = false := Bool.eq_false_iff.mpr hs
    rw [bubblePass_keep hs] at h ⊢
    obtain ⟨heq, hchain⟩ := ih h
    exact ⟨congrArg (x :: ·) heq, List.isChain_cons_cons.mpr ⟨hs, hchain⟩⟩

/-- With `swaps` asymmetric a pass never adds inversions, and removes one if it
moves anything. -/
theorem inversions_bubblePass (hasymm : ∀ x y, swaps x y = true → swaps y x = false)
    (l : List α) :
    inversions swaps (bubblePass swaps l).1 ≤ inversions swaps l ∧
      ((bubblePass swaps l).2 = true →
        inversions swaps (bubblePass swaps l).1 < inversions swaps l) := by
  induction l using bubblePass.induct swaps with
  | case1 => simp [bubblePass]
  | case2 x => simp [bubblePass]
  | case3 x y l h ih =>
    rw [bubblePass_swap h]
    have hperm : (bubblePass swaps (x :: l)).1.countP (swaps y) = l.countP (swaps y) := by
      rw [(bubblePass_perm (x :: l)).countP_eq, List.countP_cons, hasymm x y h]
      rfl
    have hlt : inversions swaps (y :: (bubblePass swaps (x :: l)).1) <
        inversions swaps (x :: y :: l) := by
      have hle := ih.1
      simp only [inversions, hperm, List.countP_cons, h, if_true] at hle ⊢
      omega
    exact ⟨hlt.le, fun _ => hlt⟩
  | case4 x y l h ih =>
    rw [bubblePass_keep (Bool.eq_false_iff.mpr h)]
    have hperm : (bubblePass swaps (y :: l)).1.countP (swaps x) = (y :: l).countP (swaps x) :=
      (bubblePass_perm (y :: l)).countP_eq _
    simp only [inversions, hperm] at ih ⊢
    exact ⟨by omega, fun hs => by have := ih.2 hs; omega⟩

theorem inversions_le (l : List α) : inversions swaps l ≤ l.length * l.length := by
  induction l with
  | nil => simp [inversions]
  | cons x l ih =>
    have hle : l.countP (swaps x) ≤ l.length := List.countP_le_length
    simp only [inversions, List.length_cons, Nat.add_mul, Nat.mul_add]
    omega

/-- The repetition ends as soon as it has more passes than there are inversions. -/
theorem bubbleLoop_terminates (hasymm : ∀ x y, swaps x y = true → swaps y x = false) :
    ∀ (fuel : ℕ) (l : List α), inversions swaps l < fuel →
      ∃ l', bubbleLoop swaps fuel l = some l' ∧ l'.Perm l ∧
        l'.IsChain fun x y => swaps x y = false := by
  intro fuel
  induction fuel with
  | zero => intro l h; omega
  | succ fuel ih =>
    intro l h
    rw [bubbleLoop]
    rcases hs : (bubblePass swaps l).2 with _ | _
    · obtain ⟨heq, hchain⟩ := bubblePass_still l hs
      refine ⟨l, ?_, List.Perm.refl l, hchain⟩
      simp [heq]
    · have hlt := (inversions_bubblePass hasymm l).2 hs
      obtain ⟨l', hl', hperm, hchain⟩ := ih (bubblePass swaps l).1 (by omega)
      exact ⟨l', by simpa using hl', hperm.trans (bubblePass_perm l), hchain⟩

/-- Neighbours in place everywhere means sorted, when "not out of place" is
transitive. -/
theorem pairwise_of_still (htrans : ∀ x y z, swaps x y = false → swaps y z = false →
    swaps x z = false) {l : List α} (h : l.IsChain fun x y => swaps x y = false) :
    l.Pairwise fun x y => swaps x y = false := by
  have : IsTrans α fun x y => swaps x y = false := ⟨fun x y z => htrans x y z⟩
  exact h.pairwise

/-! ## Stability -/

/-- A pass keeps the order within a class that has no two elements out of place. -/
theorem bubblePass_filter {p : α → Bool}
    (hp : ∀ x y, swaps x y = true → p x = true → p y = false) (l : List α) :
    (bubblePass swaps l).1.filter p = l.filter p := by
  induction l using bubblePass.induct swaps with
  | case1 => simp [bubblePass]
  | case2 x => simp [bubblePass]
  | case3 x y l h ih =>
    rw [bubblePass_swap h, List.filter_cons, ih]
    -- at most one of the two is of the class
    cases hx : p x with
    | false => simp [List.filter_cons, hx]
    | true => simp [hx, hp x y h hx]
  | case4 x y l h ih =>
    rw [bubblePass_keep (Bool.eq_false_iff.mpr h), List.filter_cons, ih, List.filter_cons (x := x)]

theorem bubbleLoop_filter {p : α → Bool}
    (hp : ∀ x y, swaps x y = true → p x = true → p y = false) {fuel : ℕ} {l l' : List α}
    (h : bubbleLoop swaps fuel l = some l') : l'.filter p = l.filter p := by
  induction fuel generalizing l with
  | zero => cases h
  | succ fuel ih =>
    rw [bubbleLoop] at h
    split at h
    · rw [ih h, bubblePass_filter hp]
    · rw [← Option.some.inj h, bubblePass_filter hp]

/-- There is one sorted sequence with given elements in each class of equal ones. -/
theorem eq_of_sorted_of_filter {r : α → α → Prop} {same : α → α → Bool} (hrefl : ∀ x, r x x)
    (hsame : ∀ x y, same x y = true ↔ r x y ∧ r y x) {l m : List α} (hl : l.Pairwise r)
    (hm : m.Pairwise r) (h : ∀ x, l.filter (same x) = m.filter (same x)) : l = m := by
  have hself : ∀ x, same x x = true := fun x => (hsame x x).mpr ⟨hrefl x, hrefl x⟩
  have hmem : ∀ {a b : List α}, (∀ x, a.filter (same x) = b.filter (same x)) →
      ∀ x ∈ a, x ∈ b := by
    intro a b hab x hx
    have hin : x ∈ a.filter (same x) := List.mem_filter.mpr ⟨hx, hself x⟩
    rw [hab x] at hin
    exact List.mem_of_mem_filter hin
  induction l generalizing m with
  | nil =>
    cases m with
    | nil => rfl
    | cons y m => cases hmem (fun x => (h x).symm) y (List.mem_cons_self ..)
  | cons x l ih =>
    cases m with
    | nil => cases hmem h x (List.mem_cons_self ..)
    | cons y m =>
      -- the first elements are below each other, so they are first in one class
      have hle : ∀ {a b : α} {t : List α}, (b :: t).Pairwise r → a ∈ b :: t → r b a := by
        intro a b t ht ha
        rcases List.mem_cons.mp ha with rfl | ha
        · exact hrefl a
        · exact (List.pairwise_cons.mp ht).1 a ha
      have hyx : r y x := hle hm (hmem h x (List.mem_cons_self ..))
      have hxy : r x y := hle hl (hmem (fun z => (h z).symm) y (List.mem_cons_self ..))
      have hfirst := h x
      rw [List.filter_cons_of_pos (hself x),
        List.filter_cons_of_pos ((hsame x y).mpr ⟨hxy, hyx⟩)] at hfirst
      obtain rfl := (List.cons.inj hfirst).1
      refine congrArg (x :: ·) (ih (List.pairwise_cons.mp hl).2 (List.pairwise_cons.mp hm).2 ?_)
      intro z
      have hz := h z
      rw [List.filter_cons, List.filter_cons] at hz
      split at hz
      · exact (List.cons.inj hz).2
      · exact hz

end Bubble

end MultithreadedWebServer
