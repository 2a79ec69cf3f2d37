import Mathlib.Data.Set.Function
import MultithreadedWebServer.MemIndex

/-!
# Words that the hash tells apart

The tables of documents and words know a string by its `FNVHash64` alone. The hash takes an octet
in by an exclusive or with the low bits, and a multiplication by an odd number. Both can be
undone, so what follows a difference does not hide it. And a difference in three octets in a row
cannot cancel itself: the factor is a power of two plus a small number, and what the first of the
octets changes is then either above the bits that the others reach, or too large.
-/

namespace MultithreadedWebServer

/-! ## Arithmetic -/

/-- The small combinations of the factor and its square that are close to a multiple of `2 ^ 64`. -/
theorem near_multiple {d g k : ℤ} (hd : -255 ≤ d) (hd' : d ≤ 255) (hg : -510 ≤ g) (hg' : g ≤ 510)
    (hlow : -256 < d * (870 * 2 ^ 40 + 189225) + g * (2 ^ 40 + 435) - k * 2 ^ 64)
    (hhigh : d * (870 * 2 ^ 40 + 189225) + g * (2 ^ 40 + 435) - k * 2 ^ 64 < 256) :
    d = 0 ∧ g = 0 := by
  have hk : k = 0 := by
    have hbelow : -2 ^ 60 < d * (870 * 2 ^ 40 + 189225) + g * (2 ^ 40 + 435) := by omega
    have habove : d * (870 * 2 ^ 40 + 189225) + g * (2 ^ 40 + 435) < 2 ^ 60 := by omega
    omega
  subst hk
  -- the multiples of `2 ^ 40` must cancel
  obtain ⟨w, hw⟩ : ∃ w, w = 870 * d + g := ⟨_, rfl⟩
  have hzero : w = 0 := by omega
  omega

/-- What is left of a product. -/
theorem exists_wrapped {m x : ℕ} (h : x = m % 2 ^ 64) : ∃ i, m = 2 ^ 64 * i + x :=
  ⟨m / 2 ^ 64, by rw [h, Nat.div_add_mod]⟩

/-- Two octets in a row, after two values that differ in the low octet. -/
theorem low_octets_eq {q u v u' v' x y a b : ℕ} (hu : u < 256) (hv : v < 256) (hu' : u' < 256)
    (hv' : v' < 256) (hx : x = (256 * q + u) * 0x100000001b3 % 2 ^ 64)
    (hy : y = (256 * q + v) * 0x100000001b3 % 2 ^ 64)
    (ha : a = (256 * (x / 256) + u') * 0x100000001b3 % 2 ^ 64)
    (hb : b = (256 * (y / 256) + v') * 0x100000001b3 % 2 ^ 64) (h : a / 256 = b / 256) :
    u = v ∧ u' = v' := by
  obtain ⟨i, hx⟩ := exists_wrapped hx
  obtain ⟨i', hy⟩ := exists_wrapped hy
  obtain ⟨j, ha⟩ := exists_wrapped ha
  obtain ⟨j', hb⟩ := exists_wrapped hb
  -- the two differences, and what wraps around
  obtain ⟨hd, hg⟩ := near_multiple (d := (u : ℤ) - v) (g := (u' : ℤ) - x % 256 - (v' - y % 256))
    (k := ((i : ℤ) - i') * 0x100000001b3 + (j - j') - 2 ^ 16 * (u - v)) (by omega) (by omega)
    (by omega) (by omega) (by omega) (by omega)
  omega

/-! ## The octets -/

/-- The factor is odd. -/
theorem mul_prime_inj {x y : UInt64} (h : x * 0x100000001b3 = y * 0x100000001b3) : x = y := by
  have hinverse : (0x100000001b3 * 0xce965057aff6957b : UInt64) = 1 := by decide
  have hboth := congrArg (· * (0xce965057aff6957b : UInt64)) h
  simp only [UInt64.mul_assoc, hinverse, UInt64.mul_one] at hboth
  exact hboth

theorem xor_octet_inj {x : UInt64} {c c' : UInt8} (h : x ^^^ c.toUInt64 = x ^^^ c'.toUInt64) :
    c = c' := by
  have hboth := congrArg (x ^^^ ·) h
  simp only [← UInt64.xor_assoc, UInt64.xor_self, UInt64.zero_xor] at hboth
  exact UInt8.toUInt64_inj.mp hboth

/-- An octet only changes the low bits. -/
theorem toNat_xor_octet (x : UInt64) (c : UInt8) : ∃ u < 256,
    (x ^^^ c.toUInt64).toNat = 256 * (x.toNat / 256) + u := by
  have hdiv : (x.toNat ^^^ c.toNat) / 256 = x.toNat / 256 := by
    have hshift := Nat.shiftRight_xor_distrib (a := x.toNat) (b := c.toNat) (i := 8)
    simp only [Nat.shiftRight_eq_div_pow] at hshift
    have hsmall : c.toNat / 2 ^ 8 = 0 := Nat.div_eq_of_lt c.toNat_lt
    rw [hsmall, Nat.xor_zero] at hshift
    exact hshift
  refine ⟨(x.toNat ^^^ c.toNat) % 256, Nat.mod_lt _ (by decide), ?_⟩
  rw [UInt64.toNat_xor, UInt8.toNat_toUInt64, ← hdiv, Nat.div_add_mod]

theorem toNat_mul_prime (x : UInt64) :
    (x * 0x100000001b3).toNat = x.toNat * 0x100000001b3 % 2 ^ 64 :=
  UInt64.toNat_mul x 0x100000001b3

/-- The first two octets, if a third one can make up for them. -/
theorem fnvFold_two {h : UInt64} {a b c a' b' c' : UInt8}
    (heq : fnvFold h [a, b] ^^^ c.toUInt64 = fnvFold h [a', b'] ^^^ c'.toUInt64) :
    a = a' ∧ b = b' := by
  obtain ⟨u, hu, hxu⟩ := toNat_xor_octet h a
  obtain ⟨v, hv, hyv⟩ := toNat_xor_octet h a'
  obtain ⟨u', hu', hau⟩ := toNat_xor_octet (fnvFold h [a]) b
  obtain ⟨v', hv', hbv⟩ := toNat_xor_octet (fnvFold h [a']) b'
  have hhigh : (fnvFold h [a, b]).toNat / 256 = (fnvFold h [a', b']).toNat / 256 := by
    obtain ⟨w, hw, hleft⟩ := toNat_xor_octet (fnvFold h [a, b]) c
    obtain ⟨w', hw', hright⟩ := toNat_xor_octet (fnvFold h [a', b']) c'
    rw [heq, hright] at hleft
    omega
  have hx : (fnvFold h [a]).toNat = (256 * (h.toNat / 256) + u) * 0x100000001b3 % 2 ^ 64 := by
    rw [← hxu]
    exact toNat_mul_prime _
  have hy : (fnvFold h [a']).toNat = (256 * (h.toNat / 256) + v) * 0x100000001b3 % 2 ^ 64 := by
    rw [← hyv]
    exact toNat_mul_prime _
  have ha : (fnvFold h [a, b]).toNat =
      (256 * ((fnvFold h [a]).toNat / 256) + u') * 0x100000001b3 % 2 ^ 64 := by
    rw [← hau]
    exact toNat_mul_prime _
  have hb : (fnvFold h [a', b']).toNat =
      (256 * ((fnvFold h [a']).toNat / 256) + v') * 0x100000001b3 % 2 ^ 64 := by
    rw [← hbv]
    exact toNat_mul_prime _
  obtain ⟨rfl, rfl⟩ := low_octets_eq hu hv hu' hv' hx hy ha hb hhigh
  obtain rfl : a = a' := xor_octet_inj (UInt64.toNat_inj.mp (hxu.trans hyv.symm))
  exact ⟨rfl, xor_octet_inj (UInt64.toNat_inj.mp (hau.trans hbv.symm))⟩

/-- Three octets in a row. -/
theorem fnvFold_three {h : UInt64} {a b c a' b' c' : UInt8}
    (heq : fnvFold h [a, b, c] = fnvFold h [a', b', c']) : [a, b, c] = [a', b', c'] := by
  have hlast : fnvFold h [a, b] ^^^ c.toUInt64 = fnvFold h [a', b'] ^^^ c'.toUInt64 :=
    mul_prime_inj heq
  obtain ⟨rfl, rfl⟩ := fnvFold_two hlast
  rw [xor_octet_inj hlast]

/-! ## The words -/

theorem fnvFold_append (h : UInt64) (front back : List UInt8) :
    fnvFold h (front ++ back) = fnvFold (fnvFold h front) back :=
  List.foldl_append

/-- What follows does not hide a difference. -/
theorem fnvFold_inj {back : List UInt8} : ∀ {h h' : UInt64},
    fnvFold h back = fnvFold h' back → h = h' := by
  induction back with
  | nil => exact fun heq => heq
  | cons c back ih =>
    intro h h' heq
    have hrest : fnvFold ((h ^^^ c.toUInt64) * 0x100000001b3) back =
        fnvFold ((h' ^^^ c.toUInt64) * 0x100000001b3) back := heq
    have hstep := mul_prime_inj (ih hrest)
    have hboth := congrArg (· ^^^ c.toUInt64) hstep
    simpa only [UInt64.xor_assoc, UInt64.xor_self, UInt64.xor_zero] using hboth

/-- At most three octets in a row. -/
theorem fnvFold_window {h : UInt64} {mid mid' : List UInt8} (hlen : mid.length = mid'.length)
    (hshort : mid.length ≤ 3) (heq : fnvFold h mid = fnvFold h mid') : mid = mid' := by
  -- shorter ones are filled up
  obtain ⟨k, hk⟩ := Nat.exists_eq_add_of_le hshort
  have hfill : fnvFold h (mid ++ List.replicate k 0) = fnvFold h (mid' ++ List.replicate k 0) := by
    rw [fnvFold_append, fnvFold_append, heq]
  have hthree : (mid ++ List.replicate k (0 : UInt8)).length = 3 := by
    rw [List.length_append, List.length_replicate, hk]
  have hthree' : (mid' ++ List.replicate k (0 : UInt8)).length = 3 := by
    rw [List.length_append, List.length_replicate, ← hlen, hk]
  obtain ⟨a, b, c, hmid⟩ := List.length_eq_three.mp hthree
  obtain ⟨a', b', c', hmid'⟩ := List.length_eq_three.mp hthree'
  rw [hmid, hmid'] at hfill
  have hsame := fnvFold_three hfill
  rw [← hmid, ← hmid'] at hsame
  exact List.append_cancel_right hsame

theorem wordKey_eq {w : CString} (h : w.bytes.length < 2 ^ 32) :
    wordKey w = fnvFold 0xcbf29ce484222325 w.bytes := by
  rw [wordKey, fnvHash64, u32_of_lt h, List.take_length]

/-- Strings of one length that differ in at most three characters in a row have different
hashes, whatever comes before and after. -/
theorem nearby_words_apart (front back : List UInt8) (n : ℕ) (hn : n ≤ 3)
    (hlen : front.length + n + back.length < 2 ^ 32) :
    Set.InjOn wordKey
      {w | ∃ mid : List UInt8, mid.length = n ∧ w.bytes = front ++ mid ++ back} := by
  rintro w ⟨mid, hmid, hw⟩ w' ⟨mid', hmid', hw'⟩ heq
  have hbound : ∀ m : List UInt8, m.length = n → (front ++ m ++ back).length < 2 ^ 32 := by
    intro m hm
    rwa [List.length_append, List.length_append, hm]
  rw [wordKey_eq (hw ▸ hbound mid hmid), wordKey_eq (hw' ▸ hbound mid' hmid'), hw, hw',
    fnvFold_append, fnvFold_append, fnvFold_append, fnvFold_append] at heq
  have hsame := fnvFold_window (hmid.trans hmid'.symm) (hmid ▸ hn) (fnvFold_inj heq)
  refine CString.ext ?_
  rw [hw, hw', hsame]

/-- Files that are numbered with three digits. -/
theorem nearby_words_apart_numbered : Set.InjOn wordKey
    {w | ∃ mid : List UInt8, mid.length = 3 ∧ w.bytes = [100, 111, 99] ++ mid ++ [46, 116]} :=
  nearby_words_apart [100, 111, 99] [46, 116] 3 (by decide) (by decide)

end MultithreadedWebServer
