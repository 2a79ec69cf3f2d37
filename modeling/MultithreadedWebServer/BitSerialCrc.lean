import Mathlib.Data.List.Basic
import Mathlib.Logic.Function.Iterate

/-!
# Cyclic redundancy checks, one bit at a time

A register of `w` bits, shifted to the right, with the generator in reflected form: its top
bit is the constant term. A step is linear, and it is injective as soon as the top bit of the
generator is set. From these two facts follow both that the steps may be taken many at a time,
and that no burst of at most `w` bits goes unnoticed.
-/

namespace MultithreadedWebServer

section BitSerialCrc

variable {w : ℕ}

/-! ## The step of the register -/

/-- One shift of the register: the bit that falls out decides whether the generator is
subtracted. -/
def crcStep (g s : BitVec w) : BitVec w :=
  if s.getLsbD 0 then (s >>> 1) ^^^ g else s >>> 1

/-- One bit of the message. -/
def crcBit (g s : BitVec w) (b : Bool) : BitVec w :=
  if s.getLsbD 0 ^^ b then (s >>> 1) ^^^ g else s >>> 1

/-- `n` shifts of the register. -/
def crcSteps (g : BitVec w) (n : ℕ) (s : BitVec w) : BitVec w := (crcStep g)^[n] s

variable (g : BitVec w)

@[simp] theorem crcSteps_zero (s : BitVec w) : crcSteps g 0 s = s := rfl

@[simp] theorem crcSteps_succ (n : ℕ) (s : BitVec w) :
    crcSteps g (n + 1) s = crcSteps g n (crcStep g s) := rfl

/-- A bit of the register after a step. -/
theorem getLsbD_crcStep (s : BitVec w) (i : ℕ) :
    (crcStep g s).getLsbD i = (s.getLsbD (i + 1) ^^ (s.getLsbD 0 && g.getLsbD i)) := by
  rw [crcStep]
  split
  · next hlow => rw [BitVec.getLsbD_xor, BitVec.getLsbD_ushiftRight, hlow, Bool.true_and,
      Nat.add_comm]
  · next hlow => rw [BitVec.getLsbD_ushiftRight, Bool.eq_false_iff.mpr hlow, Bool.false_and,
      Bool.xor_false, Nat.add_comm]

/-- A step is linear. -/
theorem crcStep_xor (s t : BitVec w) : crcStep g (s ^^^ t) = crcStep g s ^^^ crcStep g t := by
  apply BitVec.eq_of_getLsbD_eq
  intro i _
  simp only [getLsbD_crcStep, BitVec.getLsbD_xor, Bool.and_xor_distrib_right, Bool.xor_assoc,
    Bool.xor_left_comm (t.getLsbD (i + 1))]

theorem crcSteps_xor (n : ℕ) (s t : BitVec w) :
    crcSteps g n (s ^^^ t) = crcSteps g n s ^^^ crcSteps g n t := by
  induction n generalizing s t with
  | zero => rfl
  | succ n ih => simp only [crcSteps_succ, crcStep_xor, ih]

/-- With the top bit of the generator set, a step can be undone: the top bit of the result
tells which bit fell out. -/
theorem crcStep_injective (hg : g.msb = true) : Function.Injective (crcStep g) := by
  intro s t heq
  have hbits : ∀ i, (crcStep g s).getLsbD i = (crcStep g t).getLsbD i := by
    intro i
    rw [heq]
  have hlow : s.getLsbD 0 = t.getLsbD 0 := by
    have htop := hbits (w - 1)
    rw [BitVec.msb_eq_getLsbD_last] at hg
    have hw : w ≤ w - 1 + 1 := by omega
    rwa [getLsbD_crcStep, getLsbD_crcStep, BitVec.getLsbD_of_ge s _ hw,
      BitVec.getLsbD_of_ge t _ hw, hg, Bool.and_true, Bool.and_true, Bool.false_xor,
      Bool.false_xor] at htop
  apply BitVec.eq_of_getLsbD_eq
  intro i _
  cases i with
  | zero => exact hlow
  | succ i =>
    have hbit := hbits i
    rw [getLsbD_crcStep, getLsbD_crcStep, hlow] at hbit
    exact Bool.xor_left_inj.mp hbit

theorem crcSteps_injective (hg : g.msb = true) (n : ℕ) : Function.Injective (crcSteps g n) :=
  (crcStep_injective g hg).iterate n

/-- A register whose low bits are clear is only shifted. -/
theorem crcSteps_of_low_clear (n : ℕ) (s : BitVec w) (hlow : ∀ i < n, s.getLsbD i = false) :
    crcSteps g n s = s >>> n := by
  induction n generalizing s with
  | zero => simp
  | succ n ih =>
    have hstep : crcStep g s = s >>> 1 := by
      simp only [crcStep, hlow 0 (Nat.succ_pos n), Bool.false_eq_true, if_false]
    rw [crcSteps_succ, hstep, ih, ← BitVec.shiftRight_add, Nat.add_comm]
    intro i hi
    rw [BitVec.getLsbD_ushiftRight, Nat.add_comm]
    exact hlow (i + 1) (by omega)

/-- The low bits of the register may be stepped on their own: this is what a table is for. -/
theorem crcSteps_low (n : ℕ) (s low : BitVec w)
    (hlow : ∀ i, low.getLsbD i = (decide (i < n) && s.getLsbD i)) :
    crcSteps g n s = (s >>> n) ^^^ crcSteps g n low := by
  have hclear : ∀ i < n, (s ^^^ low).getLsbD i = false := by
    intro i hi
    simp [hlow, hi]
  have hshift : low >>> n = 0#w := by
    apply BitVec.eq_of_getLsbD_eq
    intro i _
    have hout : ¬ n + i < n := Nat.not_lt.mpr (Nat.le_add_right n i)
    simp [hlow, hout]
  have hsplit : s = (s ^^^ low) ^^^ low := by
    rw [BitVec.xor_assoc, BitVec.xor_self, BitVec.xor_zero]
  calc crcSteps g n s = crcSteps g n (s ^^^ low) ^^^ crcSteps g n low := by
        rw [← crcSteps_xor, ← hsplit]
    _ = ((s ^^^ low) >>> n) ^^^ crcSteps g n low := by rw [crcSteps_of_low_clear g n _ hclear]
    _ = (s >>> n) ^^^ crcSteps g n low := by
        rw [BitVec.ushiftRight_xor_distrib, hshift, BitVec.xor_zero]

/-! ## The register the other way round -/

/-- The same shift of a register that is not reflected. -/
def crcStepLeft (g s : BitVec w) : BitVec w := (s <<< 1) ^^^ (if s.msb then g else 0)

theorem reverse_crcStepLeft (s : BitVec w) :
    (crcStepLeft g s).reverse = crcStep g.reverse s.reverse := by
  apply BitVec.eq_of_getLsbD_eq
  intro i hi
  have htop : s.reverse.getLsbD 0 = s.msb := by rw [BitVec.getLsbD_reverse, BitVec.msb]
  have hshift : (s <<< 1).getMsbD i = s.getMsbD (i + 1) := by
    rw [BitVec.getMsbD_shiftLeft, Nat.add_comm]
  rw [getLsbD_crcStep, htop, BitVec.getLsbD_reverse, BitVec.getLsbD_reverse,
    BitVec.getLsbD_reverse, crcStepLeft, BitVec.getMsbD_xor, hshift]
  cases s.msb with
  | false => simp
  | true => simp

/-! ## Several bits at once -/

/-- The bits of a message as a register, the first one lowest. -/
def packBits (w : ℕ) : List Bool → BitVec w
  | [] => 0
  | b :: bs => (BitVec.ofBool b).setWidth w ^^^ (packBits w bs <<< 1)

theorem getLsbD_packBits (bs : List Bool) (i : ℕ) :
    (packBits w bs).getLsbD i = (decide (i < w) && bs[i]?.getD false) := by
  induction bs generalizing i with
  | nil => simp [packBits]
  | cons b bs ih =>
    rw [packBits, BitVec.getLsbD_xor, BitVec.getLsbD_shiftLeft, ih]
    cases i with
    | zero => simp [BitVec.getLsbD_setWidth]
    | succ i =>
      by_cases hi : i + 1 < w
      · have hi' : i < w := Nat.lt_of_succ_lt hi
        simp [hi, hi']
      · simp [BitVec.getLsbD_setWidth, hi]

/-- Messages of one length that fit the register are told apart by it. -/
theorem packBits_inj {bs cs : List Bool} (hlen : bs.length = cs.length) (hfit : bs.length ≤ w)
    (heq : packBits w bs = packBits w cs) : bs = cs := by
  apply List.ext_getElem hlen
  intro i hi hi'
  have hbit := congrArg (fun x => BitVec.getLsbD x i) heq
  simp only [getLsbD_packBits] at hbit
  simpa [hi, hi', Nat.lt_of_lt_of_le hi hfit] using hbit

/-- A bit of the message is added to the register before the step. -/
theorem crcBit_eq_crcStep (s : BitVec w) (hw : 0 < w) (b : Bool) :
    crcBit g s b = crcStep g (s ^^^ (BitVec.ofBool b).setWidth w) := by
  have hshift : (BitVec.ofBool b).setWidth w >>> 1 = 0#w := by
    apply BitVec.eq_of_getLsbD_eq
    intro i _
    simp [BitVec.getLsbD_setWidth, BitVec.getLsbD_ushiftRight]
  have hbit : ((BitVec.ofBool b).setWidth w).getLsbD 0 = b := by
    simp [hw]
  rw [crcBit, crcStep, BitVec.getLsbD_xor, hbit, BitVec.ushiftRight_xor_distrib, hshift,
    BitVec.xor_zero]

/-- A message that fits the register may be added to it at once. -/
theorem foldl_crcBit (bs : List Bool) (s : BitVec w) (hfit : bs.length ≤ w) :
    bs.foldl (crcBit g) s = crcSteps g bs.length (s ^^^ packBits w bs) := by
  induction bs generalizing s with
  | nil => simp [packBits]
  | cons b bs ih =>
    have hw : bs.length < w := hfit
    have hshift : crcStep g (packBits w bs <<< 1) = packBits w bs := by
      apply BitVec.eq_of_getLsbD_eq
      intro i hi
      rw [getLsbD_crcStep, BitVec.getLsbD_shiftLeft, BitVec.getLsbD_shiftLeft]
      by_cases htop : i + 1 < w
      · simp [htop]
      · have hclear : bs[i]?.getD false = false := by
          rw [List.getElem?_eq_none (by omega), Option.getD_none]
        simp [htop, getLsbD_packBits, hclear]
    rw [List.foldl_cons, ih _ (Nat.le_of_lt hw), List.length_cons, crcSteps_succ,
      crcBit_eq_crcStep g s (Nat.lt_of_le_of_lt (Nat.zero_le _) hw), packBits,
      ← BitVec.xor_assoc, crcStep_xor g (s ^^^ _), hshift]

/-! ## Bursts -/

/-- The same bits from different registers leave different registers. -/
theorem foldl_crcBit_injective (hg : g.msb = true) (bs : List Bool) :
    Function.Injective (bs.foldl (crcBit g)) := by
  have hw : 0 < w := by
    apply Nat.pos_of_ne_zero
    rintro rfl
    rw [BitVec.msb_eq_getLsbD_last, BitVec.getLsbD_of_ge g _ (Nat.zero_le _)] at hg
    cases hg
  induction bs with
  | nil => exact Function.injective_id
  | cons b bs ih =>
    intro s t heq
    have hstep := ih heq
    rw [crcBit_eq_crcStep g s hw, crcBit_eq_crcStep g t hw] at hstep
    exact BitVec.xor_left_inj _ |>.mp (crcStep_injective g hg hstep)

/-- No burst of at most `w` bits goes unnoticed, whatever comes before it and after it. -/
theorem crc_detects_bursts (hg : g.msb = true) (s : BitVec w) (pre post : List Bool)
    {bs cs : List Bool} (hlen : bs.length = cs.length) (hfit : bs.length ≤ w) (hne : bs ≠ cs) :
    (pre ++ bs ++ post).foldl (crcBit g) s ≠ (pre ++ cs ++ post).foldl (crcBit g) s := by
  intro heq
  rw [List.foldl_append, List.foldl_append, List.foldl_append, List.foldl_append] at heq
  have hburst := foldl_crcBit_injective g hg post heq
  rw [foldl_crcBit g bs _ hfit, foldl_crcBit g cs _ (hlen ▸ hfit), hlen] at hburst
  have hpack := (BitVec.xor_right_inj _).mp (crcSteps_injective g hg _ hburst)
  exact hne (packBits_inj hlen hfit hpack)

end BitSerialCrc

end MultithreadedWebServer
