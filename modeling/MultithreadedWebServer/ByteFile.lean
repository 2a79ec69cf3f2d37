import Mathlib.Data.List.Basic

/-!
# Files as byte lists

`writeAt` is a write to a file at an offset: what is there is overwritten, the file
grows when the write ends behind it, and a gap that opens is filled with zeros. Two laws
describe a writer that jumps around: a write that continues another one merges with it
(`writeAt_append`), and disjoint writes commute (`writeAt_comm`). `BytesAt` is what a
reader relies on.
-/

namespace MultithreadedWebServer

/-- The file after writing `d` at offset `p`; nothing happens for nothing. -/
def writeAt (b : List UInt8) (p : ℕ) (d : List UInt8) : List UInt8 :=
  if d = [] then b
  else (b ++ List.replicate (p - b.length) 0).take p ++ (d ++ b.drop (p + d.length))

@[simp] theorem writeAt_nil (b : List UInt8) (p : ℕ) : writeAt b p [] = b := if_pos rfl

/-- Each byte after a write. -/
theorem getElem?_writeAt (b : List UInt8) (p : ℕ) {d : List UInt8} (hd : d ≠ []) (i : ℕ) :
    (writeAt b p d)[i]? =
      if i < p then (if i < b.length then b[i]? else some 0)
      else if i < p + d.length then d[i - p]? else b[i]? := by
  have hfront : ((b ++ List.replicate (p - b.length) 0).take p).length = p := by
    rw [List.length_take, List.length_append, List.length_replicate]
    omega
  rw [writeAt, if_neg hd, List.getElem?_append, hfront]
  split
  · rename_i hp
    rw [List.getElem?_take_of_lt hp, List.getElem?_append]
    split
    · rfl
    · rw [List.getElem?_replicate, if_pos (by omega)]
  · rename_i hp
    rw [List.getElem?_append]
    split
    · rw [if_pos (by omega)]
    · rw [if_neg (by omega), List.getElem?_drop]
      congr 1
      omega

theorem length_writeAt (b : List UInt8) (p : ℕ) {d : List UInt8} (hd : d ≠ []) :
    (writeAt b p d).length = max b.length (p + d.length) := by
  rw [writeAt, if_neg hd, List.length_append, List.length_append, List.length_take,
    List.length_append, List.length_replicate, List.length_drop]
  omega

/-- A write that continues another one merges with it. -/
theorem writeAt_append (b : List UInt8) (p : ℕ) (d e : List UInt8) :
    writeAt (writeAt b p d) (p + d.length) e = writeAt b p (d ++ e) := by
  by_cases hd : d = []
  · subst hd
    simp
  by_cases he : e = []
  · subst he
    simp
  refine List.ext_getElem? fun i => ?_
  rw [getElem?_writeAt _ _ he, getElem?_writeAt b p hd, length_writeAt b p hd,
    getElem?_writeAt b p (List.append_ne_nil_of_left_ne_nil hd e), List.length_append,
    List.getElem?_append]
  split_ifs <;> first | rfl | omega | (congr 1; omega)

/-- Disjoint writes commute. -/
theorem writeAt_comm (b : List UInt8) {p q : ℕ} {d : List UInt8} (e : List UInt8)
    (h : p + d.length ≤ q) :
    writeAt (writeAt b q e) p d = writeAt (writeAt b p d) q e := by
  by_cases hd : d = []
  · subst hd
    simp
  by_cases he : e = []
  · subst he
    simp
  refine List.ext_getElem? fun i => ?_
  rw [getElem?_writeAt _ _ hd, getElem?_writeAt b q he, length_writeAt b q he,
    getElem?_writeAt _ _ he, getElem?_writeAt b p hd, length_writeAt b p hd]
  split_ifs <;> first | rfl | omega

/-- Of two growing regions the first grows, up to the second at most. -/
theorem writeAt_grow (b : List UInt8) {p q : ℕ} (c d e : List UInt8)
    (h : p + c.length + d.length ≤ q) :
    writeAt (writeAt (writeAt b p c) q e) (p + c.length) d =
      writeAt (writeAt b p (c ++ d)) q e := by
  rw [writeAt_comm _ e h, writeAt_append]

/-! ## What stands at an offset -/

/-- The bytes `d` stand at offset `p`. -/
def BytesAt (b : List UInt8) (p : ℕ) (d : List UInt8) : Prop := d <+: b.drop p

theorem bytesAt_append {b : List UInt8} {p : ℕ} {d e : List UInt8} :
    BytesAt b p (d ++ e) ↔ BytesAt b p d ∧ BytesAt b (p + d.length) e := by
  unfold BytesAt
  rw [← List.drop_drop]
  constructor
  · rintro ⟨t, ht⟩
    rw [← ht, List.append_assoc]
    refine ⟨List.prefix_append _ _, ?_⟩
    rw [List.drop_left]
    exact List.prefix_append _ _
  · rintro ⟨⟨t, ht⟩, he⟩
    rw [← ht, List.drop_left] at he
    rw [← ht]
    exact (List.prefix_append_right_inj d).mpr he

theorem BytesAt.left {b : List UInt8} {p : ℕ} {d e : List UInt8} (h : BytesAt b p (d ++ e)) :
    BytesAt b p d := (bytesAt_append.mp h).1

theorem BytesAt.right {b : List UInt8} {p : ℕ} {d e : List UInt8} (h : BytesAt b p (d ++ e)) :
    BytesAt b (p + d.length) e := (bytesAt_append.mp h).2

/-- The first of some bytes, and the rest. -/
theorem BytesAt.head {b : List UInt8} {p : ℕ} {c : UInt8} {d : List UInt8}
    (h : BytesAt b p (c :: d)) : b[p]? = some c := by
  obtain ⟨t, ht⟩ := h
  rw [← List.head?_drop, ← ht]
  rfl

theorem BytesAt.tail {b : List UInt8} {p : ℕ} {c : UInt8} {d : List UInt8}
    (h : BytesAt b p (c :: d)) : BytesAt b (p + 1) d :=
  BytesAt.right (d := [c]) h

theorem BytesAt.length_le {b : List UInt8} {p : ℕ} {d : List UInt8} (h : BytesAt b p d)
    (hd : d ≠ []) : p + d.length ≤ b.length := by
  have hle : d.length ≤ (b.drop p).length := List.IsPrefix.length_le h
  have hpos := List.length_pos_iff.mpr hd
  rw [List.length_drop] at hle
  omega

theorem bytesAt_self (front d rest : List UInt8) :
    BytesAt (front ++ (d ++ rest)) front.length d := by
  rw [BytesAt, List.drop_left]
  exact List.prefix_append d rest

theorem writeAt_empty (d : List UInt8) : writeAt [] 0 d = d := by
  by_cases hd : d = []
  · rw [hd, writeAt_nil]
  · rw [writeAt, if_neg hd]
    simp

/-- What has been written stands there. -/
theorem bytesAt_writeAt (b : List UInt8) (p : ℕ) (d : List UInt8) :
    BytesAt (writeAt b p d) p d := by
  by_cases hd : d = []
  · rw [hd]
    exact List.nil_prefix
  · have hfront : ((b ++ List.replicate (p - b.length) 0).take p).length = p := by
      rw [List.length_take, List.length_append, List.length_replicate]
      omega
    rw [writeAt, if_neg hd, BytesAt, List.drop_left' hfront]
    exact List.prefix_append _ _

/-- What a read of `n` bytes at an offset finds, if there are as many. -/
def readAt (b : List UInt8) (p n : ℕ) : Option (List UInt8) :=
  if p + n ≤ b.length then some ((b.drop p).take n) else none

theorem BytesAt.readAt {b : List UInt8} {p n : ℕ} {d : List UInt8} (h : BytesAt b p d)
    (hn : d.length = n) (hd : d ≠ []) : readAt b p n = some d := by
  subst hn
  rw [MultithreadedWebServer.readAt, if_pos (h.length_le hd), ← List.prefix_iff_eq_take.mp h]

end MultithreadedWebServer
