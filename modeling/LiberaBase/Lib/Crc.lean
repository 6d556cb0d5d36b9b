import Mathlib.Data.BitVec
import Mathlib.Logic.Function.Iterate
import Mathlib.Data.List.GetD
import Mathlib.Algebra.Polynomial.Div
import Mathlib.Algebra.Polynomial.Monic
import Mathlib.Algebra.CharP.Two
import Mathlib.Algebra.Field.ZMod
import Mathlib.Tactic.LinearCombination

/-!
# Cyclic redundancy checks

A check register of `w` bits is clocked once for each bit of a message, with the lowest power in
the most significant bit.  The clock is linear, and it loses nothing if the polynomial has its
lowest term.  So the register after up to `w` bits tells which bits they were: two messages that
differ in `w` consecutive bits at most have different checks.  A table of the clocked words of `k`
bits clocks the register `k` times at once.  What the register holds is the remainder of the message
after a division by the polynomial.
-/

namespace Crc

variable {w : ℕ}

section Clock

variable (poly : BitVec w)

/-- One clock: a shift to the right, and the polynomial added if the bit shifted out is a one. -/
def clock (c : BitVec w) : BitVec w := if c.getLsbD 0 then poly ^^^ (c >>> 1) else c >>> 1

/-- A bit of the message as a word. -/
def lsb (w : ℕ) (b : Bool) : BitVec w := (BitVec.ofBool b).setWidth w

def step (c : BitVec w) (b : Bool) : BitVec w := clock poly (c ^^^ lsb w b)

/-- The register after the bits of a message. -/
def feed (c : BitVec w) (bs : List Bool) : BitVec w := bs.foldl (step poly) c

variable {poly} {a b c : BitVec w} {bs : List Bool} {k : ℕ}

theorem clock_xor (a b : BitVec w) : clock poly (a ^^^ b) = clock poly a ^^^ clock poly b := by
  unfold clock
  rw [BitVec.getLsbD_xor, BitVec.ushiftRight_xor_distrib]
  cases a.getLsbD 0 <;> cases b.getLsbD 0
  · rfl
  · simp only [Bool.false_xor, if_true, Bool.false_eq_true, if_false]
    rw [← BitVec.xor_assoc, ← BitVec.xor_assoc, BitVec.xor_comm poly]
  · simp only [Bool.xor_false, if_true, Bool.false_eq_true, if_false]
    rw [BitVec.xor_assoc]
  · simp only [Bool.xor_self, Bool.false_eq_true, if_false, if_true]
    rw [BitVec.xor_comm poly (a >>> 1), BitVec.xor_assoc, ← BitVec.xor_assoc poly poly,
      BitVec.xor_self, BitVec.zero_xor]

theorem iterate_clock_xor (k : ℕ) (a b : BitVec w) :
    (clock poly)^[k] (a ^^^ b) = (clock poly)^[k] a ^^^ (clock poly)^[k] b := by
  induction k generalizing a b with
  | zero => rfl
  | succ k ih => rw [Function.iterate_succ_apply, clock_xor, ih]; rfl

/-- A word whose lowest bit is clear is only shifted. -/
theorem clock_of_even (h : c.getLsbD 0 = false) : clock poly c = c >>> 1 := by
  rw [clock, h]
  rfl

theorem msb_clock (hw : 0 < w) (hpoly : poly.msb = true) (c : BitVec w) :
    (clock poly c).msb = c.getLsbD 0 := by
  have hshift : (c >>> 1).msb = false := by
    rw [BitVec.msb_eq_getLsbD_last, BitVec.getLsbD_ushiftRight]
    exact BitVec.getLsbD_of_ge _ _ (by omega)
  unfold clock
  cases hlow : c.getLsbD 0
  · exact hshift
  · simp only [if_true]
    rw [BitVec.msb_xor, hpoly, hshift]
    rfl

/-- With the lowest term of the polynomial nothing is lost. -/
theorem clock_injective (hpoly : poly.msb = true) : Function.Injective (clock poly) := by
  intro a b h
  rcases Nat.eq_zero_or_pos w with rfl | hw
  · exact BitVec.eq_of_zero_length rfl
  have hlow : a.getLsbD 0 = b.getLsbD 0 := by
    rw [← msb_clock hw hpoly, ← msb_clock hw hpoly, h]
  have hhigh : a >>> 1 = b >>> 1 := by
    unfold clock at h
    rw [hlow] at h
    split_ifs at h
    · exact (BitVec.xor_right_inj poly).mp h
    · exact h
  apply BitVec.eq_of_getLsbD_eq
  intro i hi
  cases i with
  | zero => exact hlow
  | succ i =>
      have hbit := congrArg (fun x ↦ x.getLsbD i) hhigh
      simpa [BitVec.getLsbD_ushiftRight, Nat.add_comm] using hbit

theorem step_injective (hpoly : poly.msb = true) (b : Bool) :
    Function.Injective fun c ↦ step poly c b := fun _ _ h ↦
  (BitVec.xor_left_inj (lsb w b)).mp (clock_injective hpoly h)

theorem feed_append (c : BitVec w) (bs bs' : List Bool) :
    feed poly c (bs ++ bs') = feed poly (feed poly c bs) bs' := List.foldl_append

/-- Equal checks come from equal registers. -/
theorem feed_injective (hpoly : poly.msb = true) (bs : List Bool) :
    Function.Injective fun c ↦ feed poly c bs := by
  induction bs with
  | nil => exact fun _ _ h ↦ h
  | cons b bs ih => exact fun _ _ h ↦ step_injective hpoly b (ih h)

/-! ## The register as the word of the bits -/

/-- The word of the bits, the first one lowest. -/
def word (w : ℕ) : List Bool → BitVec w
  | [] => 0
  | b :: bs => lsb w b ^^^ (word w bs <<< 1)

theorem getLsbD_lsb (b : Bool) (i : ℕ) (hi : i < w) :
    (lsb w b).getLsbD i = (b && decide (i = 0)) := by
  rw [lsb, BitVec.getLsbD_setWidth]
  simp [hi, BitVec.getLsbD_ofBool, Bool.and_comm]

theorem getLsbD_word (bs : List Bool) (i : ℕ) (hi : i < w) :
    (word w bs).getLsbD i = bs.getD i false := by
  induction bs generalizing i with
  | nil => simp [word]
  | cons b bs ih =>
      rw [word, BitVec.getLsbD_xor, getLsbD_lsb b i hi, BitVec.getLsbD_shiftLeft]
      cases i with
      | zero => simp
      | succ i =>
          rw [Nat.add_sub_cancel, ih i (Nat.lt_of_succ_lt hi)]
          simp [hi]

/-- Bits that fit in the register are known from their word. -/
theorem word_injective {bs bs' : List Bool} (hlen : bs.length = bs'.length) (hle : bs.length ≤ w)
    (h : word w bs = word w bs') : bs = bs' := by
  apply List.ext_getElem hlen
  intro i hi hi'
  have hbit := congrArg (fun x ↦ x.getLsbD i) h
  simp only [getLsbD_word _ i (hi.trans_le hle)] at hbit
  rwa [List.getD_eq_getElem _ _ hi, List.getD_eq_getElem _ _ hi'] at hbit

/-- Clocking undoes a shift to the left that loses nothing. -/
theorem clock_shiftLeft (h : c.msb = false) : clock poly (c <<< 1) = c := by
  rw [clock_of_even (by simp [BitVec.getLsbD_shiftLeft])]
  apply BitVec.eq_of_getLsbD_eq
  intro i hi
  rw [BitVec.getLsbD_ushiftRight, BitVec.getLsbD_shiftLeft, Nat.add_comm 1 i, Nat.add_sub_cancel]
  by_cases hlast : i + 1 < w
  · simp [hlast]
  · obtain rfl : i = w - 1 := by omega
    rw [BitVec.msb_eq_getLsbD_last] at h
    simp [hlast, h]

/-- As long as they fit, the bits are a word that is added and then clocked. -/
theorem feed_eq (c : BitVec w) (bs : List Bool) (hle : bs.length ≤ w) :
    feed poly c bs = (clock poly)^[bs.length] (c ^^^ word w bs) := by
  induction bs generalizing c with
  | nil =>
      rw [word, BitVec.ofNat_eq_ofNat, BitVec.xor_zero]
      rfl
  | cons b bs ih =>
      rw [List.length_cons] at hle
      have hmsb : (word w bs).msb = false := by
        rw [BitVec.msb_eq_getLsbD_last, getLsbD_word bs (w - 1) (by omega)]
        exact List.getD_eq_default _ _ (by omega)
      have hstep : feed poly c (b :: bs) = feed poly (step poly c b) bs := rfl
      rw [hstep, ih _ (Nat.le_of_succ_le hle), List.length_cons, Function.iterate_succ_apply, word,
        ← BitVec.xor_assoc, clock_xor, clock_shiftLeft hmsb, step]

/-- **A burst is detected.**  Messages that differ, and only in bits that fit in the register, have
different checks. -/
theorem feed_ne_of_burst (hpoly : poly.msb = true) (c : BitVec w) (p q : List Bool)
    {x y : List Bool} (hlen : x.length = y.length) (hle : x.length ≤ w) (hne : x ≠ y) :
    feed poly c (p ++ x ++ q) ≠ feed poly c (p ++ y ++ q) := by
  intro h
  rw [feed_append, feed_append _ _ q, feed_append, feed_append _ p y] at h
  replace h := feed_injective hpoly q h
  rw [feed_eq _ x hle, feed_eq _ y (hlen ▸ hle), hlen] at h
  have hword := ((clock_injective hpoly).iterate y.length) h
  exact hne (word_injective hlen hle ((BitVec.xor_right_inj _).mp hword))

/-! ## Many clocks at once -/

theorem iterate_clock_shiftLeft (k : ℕ) (hclear : ∀ i, w - k ≤ i → c.getLsbD i = false) :
    (clock poly)^[k] (c <<< k) = c := by
  induction k with
  | zero => exact BitVec.shiftLeft_zero c
  | succ k ih =>
      have hmsb : (c <<< k).msb = false := by
        rw [BitVec.msb_eq_getLsbD_last, BitVec.getLsbD_shiftLeft, hclear (w - 1 - k) (by omega),
          Bool.and_false]
      rw [Function.iterate_succ_apply, BitVec.shiftLeft_add, clock_shiftLeft hmsb]
      exact ih fun i hi ↦ hclear i (by omega)

/-- Clocking `k` times is a table of the clocked words of `k` bits, and a shift. -/
theorem iterate_clock_eq (k : ℕ) (c : BitVec w) :
    (clock poly)^[k] c = (clock poly)^[k] ((c.setWidth k).setWidth w) ^^^ (c >>> k) := by
  have hsplit : c = (c.setWidth k).setWidth w ^^^ ((c >>> k) <<< k) := by
    apply BitVec.eq_of_getLsbD_eq
    intro i hi
    rw [BitVec.getLsbD_xor, BitVec.getLsbD_setWidth, BitVec.getLsbD_setWidth,
      BitVec.getLsbD_shiftLeft, BitVec.getLsbD_ushiftRight]
    by_cases hik : i < k
    · simp [hi, hik]
    · simp [hi, hik, Nat.add_sub_cancel' (not_lt.mp hik)]
  conv_lhs => rw [hsplit]
  rw [iterate_clock_xor, iterate_clock_shiftLeft]
  intro i hi
  rw [BitVec.getLsbD_ushiftRight]
  exact BitVec.getLsbD_of_ge _ _ (by omega)

end Clock

/-! ## The remainder -/

section Remainder

open Polynomial

def bit (b : Bool) : ZMod 2 := if b then 1 else 0

/-- The polynomial in a register, the lowest power in the most significant bit. -/
noncomputable def toPoly (c : BitVec w) : (ZMod 2)[X] :=
  ∑ n ∈ Finset.range w, monomial n (bit (c.getMsbD n))

/-- The polynomial of a message, whose first bit has the highest power. -/
noncomputable def message : List Bool → (ZMod 2)[X]
  | [] => 0
  | b :: bs => C (bit b) * X ^ bs.length + message bs

/-- The polynomial of the check, with the highest term that the register has no room for. -/
noncomputable def generator (poly : BitVec w) : (ZMod 2)[X] := X ^ w + toPoly poly

variable {poly c : BitVec w} {b : Bool} {bs : List Bool}

theorem bit_xor (a b : Bool) : bit (a ^^ b) = bit a + bit b := by
  cases a <;> cases b <;> decide

theorem coeff_toPoly (c : BitVec w) (n : ℕ) : (toPoly c).coeff n = bit (c.getMsbD n) := by
  rw [toPoly, finsetSum_coeff]
  simp only [coeff_monomial]
  rw [Finset.sum_ite_eq']
  split_ifs with hn
  · rfl
  · rw [BitVec.getMsbD_of_ge c n (not_lt.mp (mt Finset.mem_range.mpr hn))]
    rfl

theorem toPoly_xor (a b : BitVec w) : toPoly (a ^^^ b) = toPoly a + toPoly b := by
  ext n
  rw [coeff_add, coeff_toPoly, coeff_toPoly, coeff_toPoly, BitVec.getMsbD_xor, bit_xor]

theorem degree_toPoly_lt (c : BitVec w) : (toPoly c).degree < w := by
  rw [degree_lt_iff_coeff_zero]
  intro n hn
  rw [coeff_toPoly, BitVec.getMsbD_of_ge c n hn]
  rfl

theorem monic_generator (poly : BitVec w) : (generator poly).Monic :=
  monic_X_pow_add (degree_toPoly_lt poly)

theorem degree_generator (poly : BitVec w) : (generator poly).degree = w := by
  rw [generator, degree_add_eq_left_of_degree_lt]
  · exact degree_X_pow w
  · rw [degree_X_pow]
    exact degree_toPoly_lt poly

/-- A shift to the right is the product with `X`, without what is shifted out. -/
theorem X_mul_toPoly (hw : 0 < w) (c : BitVec w) :
    X * toPoly c = toPoly (c >>> 1) + C (bit (c.getLsbD 0)) * X ^ w := by
  ext n
  rw [coeff_add, coeff_toPoly, coeff_C_mul, coeff_X_pow, BitVec.getMsbD_ushiftRight]
  cases n with
  | zero =>
      rw [coeff_X_mul_zero, if_neg hw.ne, mul_zero, add_zero]
      simp [bit]
  | succ n =>
      rw [coeff_X_mul, coeff_toPoly]
      rcases Nat.lt_trichotomy (n + 1) w with hlt | heq | hgt
      · simp [hlt, hlt.ne]
      · subst heq
        simp [bit, BitVec.getMsbD]
      · rw [BitVec.getMsbD_of_ge c n (by omega), if_neg hgt.ne']
        simp [bit, hgt.not_gt]

theorem X_mul_toPoly_lsb (hw : 0 < w) (b : Bool) : X * toPoly (lsb w b) = C (bit b) * X ^ w := by
  have hshift : lsb w b >>> 1 = 0#w := by
    apply BitVec.eq_of_getLsbD_eq
    intro i hi
    rw [BitVec.getLsbD_ushiftRight, BitVec.getLsbD_zero]
    by_cases hlt : 1 + i < w
    · rw [getLsbD_lsb b _ hlt]
      simp
    · exact BitVec.getLsbD_of_ge _ _ (not_lt.mp hlt)
  have hzero : toPoly (0#w) = 0 := by
    ext n
    rw [coeff_toPoly]
    simp [bit]
  rw [X_mul_toPoly hw, hshift, hzero, zero_add, getLsbD_lsb b 0 hw]
  simp

/-- A clock is the product with `X`, less the generator if the bit shifted out is a one. -/
theorem X_mul_toPoly_clock (hw : 0 < w) (c : BitVec w) :
    X * toPoly c = toPoly (clock poly c) + C (bit (c.getLsbD 0)) * generator poly := by
  rw [X_mul_toPoly hw, clock]
  cases c.getLsbD 0
  · simp [bit]
  · simp only [bit, if_true, map_one, one_mul]
    rw [toPoly_xor, generator]
    linear_combination (-1 : (ZMod 2)[X]) * CharTwo.add_self_eq_zero (toPoly poly)

/-- **The register holds the remainder**, of what it held before and the message behind it, with as
many zeros at the end as the register has bits. -/
theorem toPoly_feed (hw : 0 < w) (c : BitVec w) (bs : List Bool) :
    toPoly (feed poly c bs) =
      (X ^ bs.length * toPoly c + X ^ w * message bs) %ₘ generator poly := by
  have hdvd : generator poly ∣
      X ^ bs.length * toPoly c + X ^ w * message bs - toPoly (feed poly c bs) := by
    induction bs generalizing c with
    | nil => simp [message, feed]
    | cons b bs ih =>
        have hstep := @X_mul_toPoly_clock w poly hw (c ^^^ lsb w b)
        rw [toPoly_xor, mul_add, X_mul_toPoly_lsb hw] at hstep
        obtain ⟨q, hq⟩ := ih (step poly c b)
        have hfeed : feed poly c (b :: bs) = feed poly (step poly c b) bs := rfl
        rw [hfeed, List.length_cons, message]
        refine ⟨q + X ^ bs.length * C (bit ((c ^^^ lsb w b).getLsbD 0)), ?_⟩
        rw [step] at hq ⊢
        linear_combination hq + X ^ bs.length * hstep
  rw [modByMonic_eq_of_dvd_sub (monic_generator poly) hdvd, eq_comm,
    modByMonic_eq_self_iff (monic_generator poly), degree_generator]
  exact degree_toPoly_lt _

end Remainder

end Crc
