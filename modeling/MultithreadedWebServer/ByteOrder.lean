import Mathlib.Data.Nat.Bitwise
import Mathlib.Tactic.NormNum

/-!
# The bytes of unsigned numbers

`leBytes w n` is the memory of an unsigned number of `w` bytes on a little-endian host,
and `leValue` reads it. `byteSwap w` is the number whose memory has the bytes of `n` in
the opposite order, which on such a host is the conversion to and from network order.
-/

namespace MultithreadedWebServer

/-- The `w` bytes of `n`, least significant first. -/
def leBytes : ℕ → ℕ → List UInt8
  | 0, _ => []
  | w + 1, n => UInt8.ofNat (n % 256) :: leBytes w (n / 256)

/-- The number with these bytes, least significant first. -/
def leValue : List UInt8 → ℕ
  | [] => 0
  | b :: bs => b.toNat + 256 * leValue bs

@[simp] theorem length_leBytes : ∀ w n : ℕ, (leBytes w n).length = w
  | 0, _ => rfl
  | w + 1, n => congrArg (· + 1) (length_leBytes w (n / 256))

theorem leValue_leBytes : ∀ {w n : ℕ}, n < 256 ^ w → leValue (leBytes w n) = n
  | 0, n, h => by
    rw [pow_zero, Nat.lt_one_iff] at h
    rw [h]
    rfl
  | w + 1, n, h => by
    have hbyte : n % 256 % 2 ^ 8 = n % 256 := Nat.mod_eq_of_lt (Nat.mod_lt n (by norm_num))
    have hrest : n / 256 < 256 ^ w := by
      rw [pow_succ] at h
      exact Nat.div_lt_of_lt_mul (by rwa [Nat.mul_comm] at h)
    rw [leBytes, leValue, leValue_leBytes hrest, UInt8.toNat_ofNat', hbyte]
    exact Nat.mod_add_div n 256

theorem leBytes_leValue : ∀ bs : List UInt8, leBytes bs.length (leValue bs) = bs
  | [] => rfl
  | b :: bs => by
    have hb := b.toNat_lt
    have hlow : (b.toNat + 256 * leValue bs) % 256 = b.toNat := by omega
    have hhigh : (b.toNat + 256 * leValue bs) / 256 = leValue bs := by omega
    rw [List.length_cons, leBytes, leValue, hlow, hhigh, leBytes_leValue bs, UInt8.ofNat_toNat]

theorem leValue_lt : ∀ bs : List UInt8, leValue bs < 256 ^ bs.length
  | [] => Nat.zero_lt_one
  | b :: bs => by
    have hb := b.toNat_lt
    have ih := leValue_lt bs
    rw [leValue, List.length_cons, pow_succ]
    omega

/-- The number with the bytes in the opposite order. -/
def byteSwap (w n : ℕ) : ℕ := leValue (leBytes w n).reverse

theorem byteSwap_lt (w n : ℕ) : byteSwap w n < 256 ^ w := by
  have hlt := leValue_lt (leBytes w n).reverse
  rwa [List.length_reverse, length_leBytes] at hlt

theorem leBytes_byteSwap (w n : ℕ) : leBytes w (byteSwap w n) = (leBytes w n).reverse := by
  have hbytes := leBytes_leValue (leBytes w n).reverse
  rwa [List.length_reverse, length_leBytes] at hbytes

/-- Swapping twice changes nothing. -/
theorem byteSwap_byteSwap {w n : ℕ} (h : n < 256 ^ w) : byteSwap w (byteSwap w n) = n := by
  rw [byteSwap, leBytes_byteSwap, List.reverse_reverse, leValue_leBytes h]

/-- The field of a packed struct at an offset. -/
def field (offset w : ℕ) (bytes : List UInt8) : ℕ := leValue ((bytes.drop offset).take w)

theorem field_first {w n : ℕ} (rest : List UInt8) (h : n < 256 ^ w) :
    field 0 w (leBytes w n ++ rest) = n := by
  rw [field, List.drop_zero, List.take_left' (length_leBytes w n), leValue_leBytes h]

theorem field_skip {w p : ℕ} (n v : ℕ) (rest : List UInt8) (h : w ≤ p) :
    field p v (leBytes w n ++ rest) = field (p - w) v rest := by
  have hlen : (leBytes w n).length ≤ p := by rwa [length_leBytes]
  rw [field, field, List.drop_append, List.drop_of_length_le hlen, List.nil_append,
    length_leBytes]

/-! ## Fields of the fixed-width types -/

theorem field_uInt16 (x : UInt16) (rest : List UInt8) :
    UInt16.ofNat (field 0 2 (leBytes 2 x.toNat ++ rest)) = x := by
  rw [field_first rest x.toNat_lt, UInt16.ofNat_toNat]

theorem field_uInt32 (x : UInt32) (rest : List UInt8) :
    UInt32.ofNat (field 0 4 (leBytes 4 x.toNat ++ rest)) = x := by
  rw [field_first rest x.toNat_lt, UInt32.ofNat_toNat]

theorem field_uInt64 (x : UInt64) (rest : List UInt8) :
    UInt64.ofNat (field 0 8 (leBytes 8 x.toNat ++ rest)) = x := by
  rw [field_first rest x.toNat_lt, UInt64.ofNat_toNat]

end MultithreadedWebServer
