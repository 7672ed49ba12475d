import CombinatorNet.Operator
import Mathlib.Data.Int.Bitwise
import Mathlib.Data.Rat.Floor

/-!
# The values of operators

An operator takes operands of 32 bits and is computed in a signed 64-bit word, in which no step goes
beyond the ends. So what saturates in the end is the exact integer: a quotient is the floor of the
rational number, a remainder has the sign of the dividend, bitwise operators work on infinitely
many bits, and the distance of a shift is what the other operand leaves when divided by 32.

## Main definitions

* `Operator.steps?` — the value of an operator, if each step to it fits in the word
* `Operator.Holds`, `Operator.Denotes` — when a condition holds, and which integer an operator
  denotes, said without computing it

## Main results

* `Operator.eq_bitwise_iff` — words are combined bit by bit, sign bits without end
* `Operator.steps?_eq_value` — all steps fit
* `Operator.denotes_iff` — an operator denotes its value and no other integer
* `Operator.apply_exact` — operators yield the saturated exact integers
-/

namespace CombinatorNet

/-- The integers of a signed 32-bit word. The least one has no negative among them, and is no
signal value. -/
def FitsHalfWord (v : Int) : Prop := -0x80000000 ≤ v ∧ v < 0x80000000

instance (v : Int) : Decidable (FitsHalfWord v) := inferInstanceAs (Decidable (_ ∧ _))

theorem FitsHalfWord.natAbs_le {v : Int} (h : FitsHalfWord v) : v.natAbs ≤ 2 ^ 31 := by
  obtain ⟨hlow, hhigh⟩ := h
  omega

theorem FitsHalfWord.fitsWord {v : Int} (h : FitsHalfWord v) : FitsWord v :=
  ⟨by have := h.1; omega, by have := h.2; omega⟩

theorem FitsWord.of_natAbs_le {v : Int} (h : v.natAbs ≤ 2 ^ 62) : FitsWord v :=
  ⟨by omega, by omega⟩

namespace Operator

variable {a b : Int}

/-- The quotient toward zero, and one less if there is a remainder and the signs differ. -/
def quotient? (a b : Int) : Option Int := do
  let quotient ← inWord? (a.tdiv b)
  let remainder ← inWord? (a.tmod b)
  if remainder ≠ 0 ∧ (a < 0 ↔ ¬ b < 0) then inWord? (quotient - 1) else return quotient

/-- The distance of a shift, masked in the word. -/
def masked? (b : Int) : Option Nat := (inWord? (bitwise (· &&& ·) b 31)).map Int.toNat

/-- The value of an operator, if all steps to it fit in a signed 64-bit word. Operands are compared
as they are. -/
def steps? : Operator → Int → Int → Option Int
  | add, a, b => inWord? (a + b)
  | sub, a, b => inWord? (a - b)
  | mul, a, b => inWord? (a * b)
  | div, a, b => if b = 0 then some 0 else quotient? a b
  | rem, a, b => if b = 0 then some 0 else inWord? (a.tmod b)
  | and, a, b => inWord? (bitwise (· &&& ·) a b)
  | or, a, b => inWord? (bitwise (· ||| ·) a b)
  | xor, a, b => inWord? (bitwise (· ^^^ ·) a b)
  | shr, a, b => do inWord? (a >>> (← masked? b))
  | shl, a, b => do inWord? (a <<< (← masked? b))
  | op, a, b => some (if op.test a b then 1 else 0)

/-- The condition that an operator stands for: a comparison is one of integers, and an arithmetic
operator holds if it does not yield 0. -/
def Holds : Operator → Int → Int → Prop
  | lt, a, b => a < b
  | le, a, b => a ≤ b
  | eq, a, b => a = b
  | ne, a, b => a ≠ b
  | ge, a, b => a ≥ b
  | gt, a, b => a > b
  | op, a, b => op.apply a b ≠ 0

/-- The integer that an operator denotes. -/
def Denotes : Operator → Int → Int → Int → Prop
  | add, a, b, v => v = a + b
  | sub, a, b, v => v = a - b
  | mul, a, b, v => v = a * b
  | div, a, b, v => v = if b = 0 then 0 else ⌊(a : ℚ) / b⌋
  | rem, a, b, v =>
    if b = 0 then v = 0 else (0 ≤ a → 0 ≤ v) ∧ (a ≤ 0 → v ≤ 0) ∧ |v| < |b| ∧ b ∣ a - v
  | and, a, b, v => ∀ i, v.testBit i = (a.testBit i && b.testBit i)
  | or, a, b, v => ∀ i, v.testBit i = (a.testBit i || b.testBit i)
  | xor, a, b, v => ∀ i, v.testBit i = (a.testBit i ^^ b.testBit i)
  | shr, a, b, v => v = ⌊(a : ℚ) / 2 ^ (b % 32).toNat⌋
  | shl, a, b, v => v = a * 2 ^ (b % 32).toNat
  | op, a, b, v => op.Holds a b ∧ v = 1 ∨ ¬ op.Holds a b ∧ v = 0

/-! ### Quotients and remainders -/

/-- Rounding down is rounding toward zero and correcting the quotient. -/
theorem fdiv_eq_ite (hb : b ≠ 0) : a.fdiv b =
    if a.tmod b ≠ 0 ∧ (a < 0 ↔ ¬ b < 0) then a.tdiv b - 1 else a.tdiv b := by
  have hdvd : b ∣ a ↔ a.tmod b = 0 := Int.dvd_iff_tmod_eq_zero
  rw [Int.fdiv_eq_tdiv]
  rcases Int.lt_trichotomy b 0 with hneg | rfl | hpos
  · rw [Int.sign_eq_neg_one_of_neg hneg]
    split_ifs <;> omega
  · exact absurd rfl hb
  · rw [Int.sign_eq_one_of_pos hpos]
    split_ifs <;> omega

theorem fdiv_eq_floor (a b : Int) : a.fdiv b = ⌊(a : ℚ) / b⌋ := by
  -- A negative divisor gives the same as its negative does with the negative dividend.
  rcases Int.le_total 0 b with hb | hb
  · obtain ⟨n, rfl⟩ := Int.eq_ofNat_of_zero_le hb
    rw [Int.fdiv_eq_ediv_of_nonneg a hb, Int.cast_natCast, Rat.floor_intCast_div_natCast]
  · obtain ⟨n, hn⟩ := Int.eq_ofNat_of_zero_le (Int.neg_nonneg_of_nonpos hb)
    obtain rfl : b = -n := by omega
    rw [← Int.neg_fdiv_neg, Int.neg_neg, Int.fdiv_eq_ediv_of_nonneg _ (Int.natCast_nonneg n),
      ← Rat.floor_intCast_div_natCast]
    congr 1
    push_cast
    rw [neg_div, div_neg]

theorem tmod_nonpos (b : Int) (ha : a ≤ 0) : a.tmod b ≤ 0 := by
  have hneg := Int.tmod_nonneg b (Int.neg_nonneg_of_nonpos ha)
  rw [Int.neg_tmod] at hneg
  omega

theorem abs_tmod_lt (a : Int) (hb : b ≠ 0) : |a.tmod b| < |b| := by
  rw [Int.abs_eq_natAbs, Int.abs_eq_natAbs, Int.natAbs_tmod]
  exact_mod_cast Nat.mod_lt _ (Int.natAbs_pos.mpr hb)

/-- The remainder is the only number smaller than the divisor that has the sign of the dividend and
leaves a multiple of the divisor. -/
theorem eq_tmod_iff {r : Int} (hb : b ≠ 0) :
    ((0 ≤ a → 0 ≤ r) ∧ (a ≤ 0 → r ≤ 0) ∧ |r| < |b| ∧ b ∣ a - r) ↔ r = a.tmod b := by
  constructor
  · rintro ⟨hpos, hneg, hlt, hdvd⟩
    have hpos' : 0 ≤ a → 0 ≤ a.tmod b := Int.tmod_nonneg b
    have hneg' : a ≤ 0 → a.tmod b ≤ 0 := tmod_nonpos b
    have hlt' := abs_tmod_lt a hb
    -- Both differ from the dividend by multiples of the divisor, so they differ by one too.
    have hmultiple : b ∣ r - a.tmod b := by
      have := Int.dvd_sub (Int.dvd_self_sub_tmod (x := a) (m := b)) hdvd
      rwa [sub_sub_sub_cancel_left] at this
    have hsmall : |r - a.tmod b| < |b| := by
      rcases Int.le_total 0 a with ha | ha
      · have := hpos ha
        have := hpos' ha
        rw [abs_lt] at *
        omega
      · have := hneg ha
        have := hneg' ha
        rw [abs_lt] at *
        omega
    exact sub_eq_zero.mp (Int.eq_zero_of_abs_lt_dvd (m := |b|) (by rwa [abs_dvd]) hsmall)
  · rintro rfl
    exact ⟨Int.tmod_nonneg b, tmod_nonpos b, abs_tmod_lt a hb, Int.dvd_self_sub_tmod⟩

/-! ### Bits -/

/-- An integer repeats the sign bit of its word without end. -/
theorem testBit_toInt {w : Nat} (x : BitVec w) (i : Nat) :
    x.toInt.testBit i = x.getLsbD (min i (w - 1)) := by
  have hbits : x.toInt.testBit i = if i < w then x.getLsbD i else x.msb := by
    rw [BitVec.toInt_eq_msb_cond]
    cases hmsb : x.msb with
    | false =>
      show x.toNat.testBit i = _
      rw [BitVec.testBit_toNat]
      split
      · rfl
      · next hi => exact BitVec.getLsbD_of_ge x i (Nat.le_of_not_lt hi)
    | true =>
      -- A negative number has the complement of the bits of a natural number.
      have hneg : (x.toNat : Int) - (2 ^ w : Nat) = Int.negSucc (~~~x).toNat := by
        have := x.isLt
        rw [BitVec.toNat_not, Int.negSucc_eq]
        omega
      rw [if_pos rfl, hneg]
      show (!(~~~x).toNat.testBit i) = _
      rw [BitVec.testBit_toNat, BitVec.getLsbD_not]
      split <;> simp [*]
  rw [hbits, BitVec.msb_eq_getLsbD_last]
  split
  · rw [Nat.min_eq_left (by omega)]
  · rw [Nat.min_eq_right (by omega)]

/-- Integers are determined by their bits. -/
theorem eq_of_testBit {v w : Int} (h : ∀ i, v.testBit i = w.testBit i) : v = w := by
  -- Far up, a natural number has no bits, and a negative number has all of them.
  have hmixed : ∀ m n : Nat, ∃ i, m.testBit i ≠ !n.testBit i := by
    intro m n
    have hm : m < 2 ^ (m + n) := Nat.lt_of_le_of_lt (Nat.le_add_right m n) Nat.lt_two_pow_self
    have hn : n < 2 ^ (m + n) := Nat.lt_of_le_of_lt (Nat.le_add_left n m) Nat.lt_two_pow_self
    exact ⟨m + n, by rw [Nat.testBit_lt_two_pow hm, Nat.testBit_lt_two_pow hn]; decide⟩
  cases v with
  | ofNat m =>
    cases w with
    | ofNat n => exact congrArg _ (Nat.eq_of_testBit_eq h)
    | negSucc n =>
      obtain ⟨i, hi⟩ := hmixed m n
      exact absurd (h i) hi
  | negSucc m =>
    cases w with
    | ofNat n =>
      obtain ⟨i, hi⟩ := hmixed n m
      exact absurd (h i).symm hi
    | negSucc n => exact congrArg _ (Nat.eq_of_testBit_eq fun i => Bool.not_inj (h i))

theorem toInt_ofInt (h : FitsWord a) : (BitVec.ofInt 64 a).toInt = a :=
  BitVec.toInt_ofInt_eq_self (by decide) h.1 h.2

theorem fitsWord_bitwise (f : BitVec 64 → BitVec 64 → BitVec 64) (a b : Int) :
    FitsWord (bitwise f a b) :=
  ⟨BitVec.le_toInt _, BitVec.toInt_lt⟩

/-- What combines the bits of two words also combines those of the integers in them. -/
theorem eq_bitwise_iff {f : BitVec 64 → BitVec 64 → BitVec 64} {g : Bool → Bool → Bool}
    (hbits : ∀ x y i, i < 64 → (f x y).getLsbD i = g (x.getLsbD i) (y.getLsbD i))
    (ha : FitsWord a) (hb : FitsWord b) {v : Int} :
    (∀ i, v.testBit i = g (a.testBit i) (b.testBit i)) ↔ v = bitwise f a b := by
  have hbitwise : ∀ i, (bitwise f a b).testBit i = g (a.testBit i) (b.testBit i) := by
    intro i
    rw [bitwise, testBit_toInt, hbits _ _ _ (by omega), ← testBit_toInt, ← testBit_toInt,
      toInt_ofInt ha, toInt_ofInt hb]
  constructor
  · exact fun h => eq_of_testBit fun i => (h i).trans (hbitwise i).symm
  · rintro rfl
    exact hbitwise

/-- The lowest five bits of a number are what it leaves when divided by 32. -/
theorem bitwise_and_mask (b : Int) : bitwise (· &&& ·) b 31 = b % 32 := by
  have hand : (BitVec.ofInt 64 b &&& BitVec.ofInt 64 31).toNat = (b % 32).toNat := by
    rw [BitVec.toNat_and]
    show (BitVec.ofInt 64 b).toNat &&& (2 ^ 5 - 1) = _
    rw [Nat.and_two_pow_sub_one_eq_mod, BitVec.toNat_ofInt]
    omega
  rw [bitwise, BitVec.toInt_eq_toNat_of_lt (by rw [hand]; omega), hand]
  omega

/-! ### Steps -/

theorem fitsWord_mul {c : Int} (ha : FitsHalfWord a) (hc : c.natAbs ≤ 2 ^ 31) :
    FitsWord (a * c) := by
  refine .of_natAbs_le ?_
  calc (a * c).natAbs = a.natAbs * c.natAbs := Int.natAbs_mul a c
    _ ≤ 2 ^ 31 * 2 ^ 31 := Nat.mul_le_mul ha.natAbs_le hc
    _ = 2 ^ 62 := rfl

theorem natAbs_tdiv_le (a b : Int) : (a.tdiv b).natAbs ≤ a.natAbs := by
  rw [Int.natAbs_tdiv]
  exact Nat.div_le_self _ _

theorem natAbs_tmod_le (a b : Int) : (a.tmod b).natAbs ≤ a.natAbs := by
  rw [Int.natAbs_tmod]
  exact Nat.mod_le _ _

theorem quotient?_eq (ha : FitsHalfWord a) (hb : b ≠ 0) : quotient? a b = some (a.fdiv b) := by
  have hle := ha.natAbs_le
  have hquotient := natAbs_tdiv_le a b
  have hremainder := natAbs_tmod_le a b
  rw [quotient?, inWord?_eq_some (.of_natAbs_le (by omega)),
    inWord?_eq_some (.of_natAbs_le (by omega)), fdiv_eq_ite hb]
  simp only [Option.bind_eq_bind, Option.bind_some]
  split
  · exact inWord?_eq_some (.of_natAbs_le (by omega))
  · rfl

theorem masked?_eq (b : Int) : masked? b = some (shiftDistance b) := by
  rw [masked?, bitwise_and_mask, inWord?_eq_some ⟨by omega, by omega⟩]
  rfl

theorem shiftDistance_lt (b : Int) : shiftDistance b < 32 := by
  rw [shiftDistance]
  omega

/-- Rounding down leads to the floor of the rational number, also for a shift. -/
theorem shiftRight_eq_floor (a : Int) (n : Nat) : a >>> n = ⌊(a : ℚ) / 2 ^ n⌋ := by
  rw [Int.shiftRight_eq_div_pow, ← Rat.floor_intCast_div_natCast]
  push_cast
  rfl

/-- No step goes beyond the word, so the steps lead to the value. -/
theorem steps?_eq_value (op : Operator) (ha : FitsHalfWord a) (hb : FitsHalfWord b) :
    op.steps? a b = some (op.value a b) := by
  have hale := ha.natAbs_le
  have hble := hb.natAbs_le
  cases op with
  | add | sub => exact inWord?_eq_some (.of_natAbs_le (by omega))
  | mul => exact inWord?_eq_some (fitsWord_mul ha hble)
  | div =>
    rw [steps?, value]
    split
    · next hzero => rw [hzero, Int.fdiv_zero]
    · next hb => exact quotient?_eq ha hb
  | rem =>
    have hremainder := natAbs_tmod_le a b
    rw [steps?, value]
    split
    · rfl
    · exact inWord?_eq_some (.of_natAbs_le (by omega))
  | and | or | xor => exact inWord?_eq_some (fitsWord_bitwise _ _ _)
  | shr =>
    rw [steps?, masked?_eq]
    refine inWord?_eq_some (.of_natAbs_le ?_)
    rw [Int.shiftRight_eq_div_pow]
    exact (Int.natAbs_ediv_le_natAbs _ _).trans (by omega)
  | shl =>
    have hpow : 2 ^ shiftDistance b ≤ 2 ^ 31 :=
      Nat.pow_le_pow_right (by decide) (Nat.le_of_lt_succ (shiftDistance_lt b))
    rw [steps?, masked?_eq]
    refine inWord?_eq_some ?_
    rw [Int.shiftLeft_eq]
    exact fitsWord_mul ha (by rwa [Int.natAbs_pow])
  | lt | le | eq | ne | ge | gt => simp [steps?, test, value]

theorem test_iff_holds (op : Operator) (a b : Int) : op.test a b = true ↔ op.Holds a b := by
  cases op <;> simp [test, Holds]

/-- An operator denotes its value and nothing else. -/
theorem denotes_iff (op : Operator) (ha : FitsHalfWord a) (hb : FitsHalfWord b) {v : Int} :
    op.Denotes a b v ↔ v = op.value a b := by
  have haword := ha.fitsWord
  have hbword := hb.fitsWord
  cases op with
  | add | sub | mul => exact Iff.rfl
  | div =>
    rw [Denotes, value]
    split
    · next hzero => rw [hzero, Int.fdiv_zero]
    · rw [fdiv_eq_floor]
  | rem =>
    rw [Denotes, value]
    split
    · rfl
    · next hb => exact eq_tmod_iff hb
  | and => exact eq_bitwise_iff (fun x y i _ => BitVec.getLsbD_and) haword hbword
  | or => exact eq_bitwise_iff (fun x y i _ => BitVec.getLsbD_or) haword hbword
  | xor => exact eq_bitwise_iff (fun x y i _ => BitVec.getLsbD_xor) haword hbword
  | shr =>
    rw [value, shiftRight_eq_floor]
    rfl
  | shl =>
    rw [value, Int.shiftLeft_eq]
    rfl
  | lt | le | eq | ne | ge | gt =>
    simp only [Denotes, Holds, value]
    split <;> simp_all

/-- An operator on 32-bit operands denotes one integer, which is reached in steps that fit in a
signed 64-bit word, and yields this integer saturated. As a condition it holds just if the
comparison of the integers does, or if its value is not 0. -/
theorem apply_exact (op : Operator) {a b : Int} (ha : FitsHalfWord a) (hb : FitsHalfWord b) :
    (∃ v, (∀ w, op.Denotes a b w ↔ w = v) ∧ op.steps? a b = some v ∧
      op.apply a b = saturate v) ∧
    (op.test a b = true ↔ op.Holds a b) :=
  ⟨⟨op.value a b, fun _ => op.denotes_iff ha hb, op.steps?_eq_value ha hb, rfl⟩,
    op.test_iff_holds a b⟩

/-- The least operand divided by -1 is exact in the word, and one beyond the greatest signal
value. -/
theorem apply_exact_leastDividend : FitsHalfWord (-0x80000000) ∧ FitsHalfWord (-1) ∧
    (∀ w, div.Denotes (-0x80000000) (-1) w ↔ w = 0x80000000) ∧
    div.steps? (-0x80000000) (-1) = some 0x80000000 ∧
    div.apply (-0x80000000) (-1) = 0x7fffffff ∧ div.Holds (-0x80000000) (-1) := by
  have ha : FitsHalfWord (-0x80000000) := by decide
  have hb : FitsHalfWord (-1) := by decide
  obtain ⟨⟨v, hdenotes, hsteps, happly⟩, hholds⟩ := apply_exact div ha hb
  have hvalue : div.steps? (-0x80000000) (-1) = some 0x80000000 := by decide
  obtain rfl : v = 0x80000000 := Option.some_inj.mp (hsteps.symm.trans hvalue)
  exact ⟨ha, hb, hdenotes, hsteps, happly, hholds.mp (by decide)⟩

end Operator

end CombinatorNet
