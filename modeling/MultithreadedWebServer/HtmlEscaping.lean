import Mathlib.Data.Bool.AllAny
import MultithreadedWebServer.CharacterCodes
import MultithreadedWebServer.HttpUtils

/-!
# HttpUtils.cc: EscapeHTML

Five rewrites of the whole string, one after the other. The ampersand is rewritten first, and
no later rewrite finds its character in an entity that an earlier one put there, so all five
together are one substitution.
-/

namespace MultithreadedWebServer

/-- The five characters with their entities. -/
def htmlEntities : List (UInt8 × CppString) :=
  [(38, ascii "&amp;"), (60, ascii "&lt;"), (62, ascii "&gt;"), (34, ascii "&quot;"),
    (39, ascii "&apos;")]

/-- The entities begin with an ampersand, which stands nowhere else in them. -/
theorem htmlEntities_start : htmlEntities.all (fun e =>
    e.2 == 38 :: e.2.tail && !e.2.tail.contains 38) = true := by
  decide

/-- No entity begins another. -/
theorem htmlEntities_unique : htmlEntities.all (fun e => htmlEntities.all fun e' =>
    !e.2.isPrefixOf e'.2 || e == e') = true := by
  decide

/-- The only special character of an entity is the ampersand. -/
theorem htmlEntities_plain : htmlEntities.all (fun e =>
    ([60, 62, 34, 39] : List UInt8).all fun c => !e.2.contains c) = true := by
  decide

/-- The entities as codes for the five characters. -/
def htmlCodes : CharCodes UInt8 where
  mark := 38
  codes := htmlEntities
  mark_coded := ⟨_, List.mem_cons_self .., rfl⟩
  starts e he := by
    have hstart := List.all_eq_true.mp htmlEntities_start e he
    rw [Bool.and_eq_true, beq_iff_eq] at hstart
    exact ⟨e.2.tail, hstart.1, by simpa using hstart.2⟩
  unique e he e' he' hprefix := by
    have hunique := List.all_eq_true.mp (List.all_eq_true.mp htmlEntities_unique e he) e' he'
    rw [List.isPrefixOf_iff_prefix.mpr hprefix, Bool.not_true, Bool.false_or, beq_iff_eq] at hunique
    exact hunique

theorem replaceAll_singleton_ne {c d : UInt8} (h : d ≠ c) (replacement : CppString) :
    replaceAll [d] c replacement = [d] := by
  rw [replaceAll, List.flatMap_singleton, if_neg h]

/-- The five rewrites, on one character. -/
theorem escapeHTML_singleton (c : UInt8) : escapeHTML [c] = htmlCodes.encodeChar c := by
  by_cases hspecial : c = 38 ∨ c = 34 ∨ c = 39 ∨ c = 60 ∨ c = 62
  · rcases hspecial with rfl | rfl | rfl | rfl | rfl
    all_goals decide
  · rw [not_or, not_or, not_or, not_or] at hspecial
    obtain ⟨hamp, hquot, hapos, hlt, hgt⟩ := hspecial
    have hfind : htmlEntities.find? (fun e => e.1 = c) = none := by
      simp [htmlEntities, Ne.symm hamp, Ne.symm hquot, Ne.symm hapos, Ne.symm hlt,
        Ne.symm hgt]
    have hself : htmlCodes.encodeChar c = [c] := by
      rw [CharCodes.encodeChar, show htmlCodes.codes = htmlEntities from rfl, hfind]
    simp only [escapeHTML, replaceAll_singleton_ne hamp, replaceAll_singleton_ne hquot,
      replaceAll_singleton_ne hapos, replaceAll_singleton_ne hlt, replaceAll_singleton_ne hgt,
      hself]

/-- The five rewrites are one substitution. -/
theorem escapeHTML_eq_encode (s : CppString) : escapeHTML s = htmlCodes.encode s := by
  induction s with
  | nil => rfl
  | cons c s ih =>
    have happend : escapeHTML (c :: s) = escapeHTML [c] ++ escapeHTML s := by
      simp only [escapeHTML, replaceAll, ← List.flatMap_append]
      rfl
    rw [happend, ih, escapeHTML_singleton, CharCodes.encode_cons]

/-- Replacing the entities back. -/
def unescapeHTML (s : CppString) : CppString := htmlCodes.decode s

/-- No special character but the ampersand is left. -/
theorem escapeHTML_plain (s : CppString) :
    ∀ c ∈ escapeHTML s, c ≠ 60 ∧ c ≠ 62 ∧ c ≠ 34 ∧ c ≠ 39 := by
  have hnot : ∀ d, (∃ e ∈ htmlEntities, e.1 = d) → d ∈ ([60, 62, 34, 39] : List UInt8) →
      d ∉ escapeHTML s := by
    intro d hcoded hd
    rw [escapeHTML_eq_encode]
    apply htmlCodes.not_mem_encode hcoded
    intro e he
    have hplain := List.all_eq_true.mp (List.all_eq_true.mp htmlEntities_plain e he) d hd
    simpa using hplain
  intro c hc
  refine ⟨?_, ?_, ?_, ?_⟩
  · rintro rfl
    exact hnot 60 ⟨(60, ascii "&lt;"), by simp [htmlEntities], rfl⟩ (by simp) hc
  · rintro rfl
    exact hnot 62 ⟨(62, ascii "&gt;"), by simp [htmlEntities], rfl⟩ (by simp) hc
  · rintro rfl
    exact hnot 34 ⟨(34, ascii "&quot;"), by simp [htmlEntities], rfl⟩ (by simp) hc
  · rintro rfl
    exact hnot 39 ⟨(39, ascii "&apos;"), by simp [htmlEntities], rfl⟩ (by simp) hc

/-- `EscapeHTML` replaces the five characters by their entities, all at once. So no special
character is left, an ampersand only stands at the start of an entity, the text can be read back,
and texts may be escaped in pieces. -/
theorem escapeHTML_faithful (s t : CppString) :
    escapeHTML s = s.flatMap htmlCodes.encodeChar ∧
    (∀ c ∈ escapeHTML s, c ≠ 60 ∧ c ≠ 62 ∧ c ≠ 34 ∧ c ≠ 39) ∧
    (∀ a b, escapeHTML s = a ++ 38 :: b → ∃ e ∈ htmlEntities, e.2 <+: 38 :: b) ∧
    unescapeHTML (escapeHTML s) = s ∧ (escapeHTML s = escapeHTML t → s = t) ∧
    escapeHTML (s ++ t) = escapeHTML s ++ escapeHTML t := by
  refine ⟨escapeHTML_eq_encode s, escapeHTML_plain s, ?_, ?_, ?_, ?_⟩
  · intro a b h
    rw [escapeHTML_eq_encode] at h
    exact htmlCodes.code_of_mark h
  · rw [escapeHTML_eq_encode]
    exact htmlCodes.decode_encode s
  · intro heq
    rw [escapeHTML_eq_encode, escapeHTML_eq_encode] at heq
    exact htmlCodes.encode_injective heq
  · simp only [escapeHTML_eq_encode, CharCodes.encode_append]

/-- A text that has an entity already. -/
theorem escapeHTML_faithful_entity :
    escapeHTML (ascii "<a&amp;b>") = ascii "&lt;a&amp;amp;b&gt;" ∧
    (∃ e ∈ htmlEntities, e.2 <+: ascii "&amp;amp;b&gt;") ∧
    unescapeHTML (escapeHTML (ascii "<a&amp;b>")) = ascii "<a&amp;b>" := by
  obtain ⟨-, -, hentity, hback, -, -⟩ := escapeHTML_faithful (ascii "<a&amp;b>") []
  exact ⟨by decide, hentity (ascii "&lt;a") _ (by decide), hback⟩

end MultithreadedWebServer
