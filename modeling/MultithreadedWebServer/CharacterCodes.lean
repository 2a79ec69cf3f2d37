import Mathlib.Data.List.Basic

/-!
# Codes for characters

Some characters of a text are replaced by codes, which all begin with one mark and have it
nowhere else. When the mark has a code itself and no code begins another, the text can be read
back: where a mark stands, a code stands, and which one is known by looking at it.
-/

namespace MultithreadedWebServer

universe u

/-- Codes for some characters of an alphabet. -/
structure CharCodes (α : Type u) [DecidableEq α] where
  /-- what every code begins with -/
  mark : α
  /-- the characters with their codes -/
  codes : List (α × List α)
  /-- the mark has a code -/
  mark_coded : ∃ e ∈ codes, e.1 = mark
  /-- every code begins with the mark, and has it only there -/
  starts : ∀ e ∈ codes, ∃ code, e.2 = mark :: code ∧ mark ∉ code
  /-- no code begins another -/
  unique : ∀ e ∈ codes, ∀ e' ∈ codes, e.2 <+: e'.2 → e = e'

namespace CharCodes

variable {α : Type u} [DecidableEq α] (C : CharCodes α)

/-- The code of a character, or the character. -/
def encodeChar (c : α) : List α :=
  match C.codes.find? fun e => e.1 = c with
  | some e => e.2
  | none => [c]

/-- Every character is replaced by its code. -/
def encode (s : List α) : List α := s.flatMap C.encodeChar

/-- The code that a text begins with. -/
def codeAt (s : List α) : Option (α × List α) := C.codes.find? fun e => e.2.isPrefixOf s

/-- Reading a text from the left, with a number of characters that belong to a code which was
already read. -/
def decodeFrom : ℕ → List α → List α
  | _, [] => []
  | skip + 1, _ :: s => decodeFrom skip s
  | 0, c :: s =>
    match C.codeAt (c :: s) with
    | some e => e.1 :: decodeFrom (e.2.length - 1) s
    | none => c :: decodeFrom 0 s

/-- Every code is replaced by its character, from the left to the right. -/
def decode (s : List α) : List α := C.decodeFrom 0 s

@[simp] theorem encode_nil : C.encode [] = [] := rfl

theorem encode_append (s t : List α) : C.encode (s ++ t) = C.encode s ++ C.encode t :=
  List.flatMap_append

theorem encode_cons (c : α) (s : List α) : C.encode (c :: s) = C.encodeChar c ++ C.encode s :=
  List.flatMap_cons

/-- A character has a code, or it stands for itself and is not the mark. -/
theorem encodeChar_cases (c : α) :
    (∃ code, (c, C.mark :: code) ∈ C.codes ∧ C.mark ∉ code ∧
      C.encodeChar c = C.mark :: code) ∨
    ((∀ e ∈ C.codes, e.1 ≠ c) ∧ c ≠ C.mark ∧ C.encodeChar c = [c]) := by
  rw [encodeChar]
  cases hfind : C.codes.find? fun e => e.1 = c with
  | some e =>
    have hmem := List.mem_of_find?_eq_some hfind
    have hchar : e.1 = c := by simpa using List.find?_some hfind
    obtain ⟨code, hcode, honce⟩ := C.starts e hmem
    refine .inl ⟨code, ?_, honce, hcode⟩
    rwa [← hchar, ← hcode]
  | none =>
    have hnone : ∀ e ∈ C.codes, e.1 ≠ c := by simpa using List.find?_eq_none.mp hfind
    refine .inr ⟨hnone, ?_, rfl⟩
    intro hmark
    obtain ⟨e, he, hchar⟩ := C.mark_coded
    exact hnone e he (hchar.trans hmark.symm)

/-- A code is recognised, whatever follows it. -/
theorem codeAt_append {e : α × List α} (he : e ∈ C.codes) (s : List α) :
    C.codeAt (e.2 ++ s) = some e := by
  cases hfind : C.codeAt (e.2 ++ s) with
  | none =>
    have hnone := List.find?_eq_none.mp hfind e he
    exact absurd (List.isPrefixOf_iff_prefix.mpr (List.prefix_append _ _)) hnone
  | some e' =>
    have he' := List.mem_of_find?_eq_some hfind
    have htest : e'.2.isPrefixOf (e.2 ++ s) = true := by
      rw [codeAt] at hfind
      simpa using List.find?_some hfind
    have hprefix' : e'.2 <+: e.2 ++ s := List.isPrefixOf_iff_prefix.mp htest
    -- two codes at the start of one text: the shorter one begins the other
    rcases List.prefix_or_prefix_of_prefix (List.prefix_append e.2 s) hprefix' with hle | hle
    · rw [C.unique e he e' he' hle]
    · rw [C.unique e' he' e he hle]

/-- No code begins without the mark. -/
theorem codeAt_cons_of_ne {c : α} (hc : c ≠ C.mark) (s : List α) : C.codeAt (c :: s) = none := by
  apply List.find?_eq_none.mpr
  intro e he hprefix
  obtain ⟨code, hcode, -⟩ := C.starts e he
  rw [hcode, List.isPrefixOf_iff_prefix, List.cons_prefix_cons] at hprefix
  exact hc hprefix.1.symm

theorem decodeFrom_append (code s : List α) :
    C.decodeFrom code.length (code ++ s) = C.decode s := by
  induction code with
  | nil => rfl
  | cons c code ih => exact ih

/-- What was encoded is read back. -/
theorem decode_encode (s : List α) : C.decode (C.encode s) = s := by
  induction s with
  | nil => rfl
  | cons c s ih =>
    rw [encode_cons]
    rcases C.encodeChar_cases c with ⟨code, hmem, -, hcode⟩ | ⟨-, hmark, hself⟩
    · rw [hcode, List.cons_append, decode, decodeFrom]
      have hat := C.codeAt_append hmem (C.encode s)
      rw [List.cons_append] at hat
      rw [hat]
      exact congrArg (c :: ·) ((C.decodeFrom_append code _).trans ih)
    · rw [hself, List.singleton_append, decode, decodeFrom, C.codeAt_cons_of_ne hmark]
      exact congrArg (c :: ·) ih

theorem encode_injective : Function.Injective C.encode := by
  intro s t heq
  rw [← C.decode_encode s, heq, C.decode_encode]

/-- Wherever the mark stands in an encoded text, a code stands. -/
theorem code_of_mark {s a b : List α} (h : C.encode s = a ++ C.mark :: b) :
    ∃ e ∈ C.codes, e.2 <+: C.mark :: b := by
  induction s generalizing a with
  | nil =>
    rw [encode_nil] at h
    exact absurd h.symm (List.append_ne_nil_of_right_ne_nil _ (List.cons_ne_nil _ _))
  | cons c s ih =>
    rw [encode_cons] at h
    rcases List.append_eq_append_iff.mp h with ⟨a', rfl, hs⟩ | ⟨b', hcode, hb⟩
    · exact ih hs
    · -- the mark stands in the code of `c`, so at its start
      cases b' with
      | nil => exact ih (a := []) (by simpa using hb.symm)
      | cons d b' =>
        obtain ⟨rfl, hb⟩ := List.cons.inj hb
        rcases C.encodeChar_cases c with ⟨code, hmem, honce, hc⟩ | ⟨-, hmark, hself⟩
        · cases a with
          | nil =>
            refine ⟨_, hmem, ?_⟩
            rw [hc, List.nil_append] at hcode
            rw [hcode, hb]
            exact (List.cons_prefix_cons).mpr ⟨rfl, List.prefix_append _ _⟩
          | cons x a =>
            rw [hc, List.cons_append] at hcode
            rw [(List.cons.inj hcode).2] at honce
            exact absurd (List.mem_append_right _ (List.mem_cons_self ..)) honce
        · have hin : C.mark ∈ [c] := by
            rw [← hself, hcode]
            exact List.mem_append_right _ (List.mem_cons_self ..)
          exact absurd (List.mem_singleton.mp hin).symm hmark

/-- A character that has a code and stands in none does not stand in an encoded text. -/
theorem not_mem_encode {d : α} (hcoded : ∃ e ∈ C.codes, e.1 = d) (hnone : ∀ e ∈ C.codes, d ∉ e.2)
    (s : List α) : d ∉ C.encode s := by
  intro hd
  obtain ⟨c, -, hc⟩ := List.mem_flatMap.mp hd
  rcases C.encodeChar_cases c with ⟨code, hmem, -, hcode⟩ | ⟨hfree, -, hself⟩
  · rw [hcode] at hc
    exact hnone _ hmem hc
  · rw [hself] at hc
    obtain ⟨e, he, hchar⟩ := hcoded
    exact hfree e he (hchar.trans (List.mem_singleton.mp hc))

end CharCodes

end MultithreadedWebServer
