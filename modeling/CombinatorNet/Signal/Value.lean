import CombinatorNet.Word

/-!
# Signal values

A signal value lies between −2147483647 and 2147483647, so that every value has a negative. A result
beyond these bounds saturates: it takes the value of the bound.

## Main definitions

* `saturate` — the nearest signal value
* `InRange` — the integers that are signal values
* `total` — the sum of some values
* `literalTotal`, `literalTotalChecked` — the sum of two literals in a signed word, without and with
  overflow checks
* `compact` — a value in at most three digits and a suffix

## Main results

* `inRange_saturate` — a saturated value is a signal value
* `saturate_eq_self` — a signal value saturates to itself
* `literalTotal_eq_add` — a total that fits in the word is the sum
-/

namespace CombinatorNet

/-- The largest signal value. -/
def signalMax : Int := 2147483647

/-- The integers that are signal values. -/
def InRange (v : Int) : Prop := -signalMax ≤ v ∧ v ≤ signalMax

instance (v : Int) : Decidable (InRange v) := inferInstanceAs (Decidable (_ ∧ _))

/-- The signal value nearest to an integer. -/
def saturate (v : Int) : Int := max (-signalMax) (min signalMax v)

theorem inRange_saturate (v : Int) : InRange (saturate v) := by
  simp only [InRange, saturate, signalMax]; omega

theorem saturate_eq_self {v : Int} (h : InRange v) : saturate v = v := by
  simp only [InRange, saturate, signalMax] at *; omega

@[simp] theorem saturate_saturate (v : Int) : saturate (saturate v) = saturate v :=
  saturate_eq_self (inRange_saturate v)

@[simp] theorem saturate_zero : saturate 0 = 0 := rfl

@[simp] theorem saturate_one : saturate 1 = 1 := rfl

theorem saturate_neg (v : Int) : saturate (-v) = -saturate v := by
  simp only [saturate, signalMax]; omega

theorem saturate_mono {v w : Int} (h : v ≤ w) : saturate v ≤ saturate w := by
  simp only [saturate, signalMax]; omega

/-- The sum of some values, which may lie beyond the bounds. -/
def total (values : List Int) : Int := values.foldr (· + ·) 0

/-- The total of two literals in a release build: it is kept in a signed word and wraps around at
its ends. -/
def literalTotal (v w : Int) : Int := Int.bmod (v + w) 0x10000000000000000

/-- A total that fits in the word is the sum. -/
theorem literalTotal_eq_add {v w : Int} (h : FitsWord (v + w)) : literalTotal v w = v + w := by
  obtain ⟨hlow, hhigh⟩ := h
  rw [literalTotal]
  exact Int.bmod_eq_of_le (by omega) (by omega)

/-- The total of two literals in a build with overflow checks, which panics at the ends of the
word. -/
def literalTotalChecked (v w : Int) : Option Int := inWord? (v + w)

/-- A magnitude in thousands: the first suffix under which fewer than four digits are left, or else
the last one. -/
def inThousands (n : Nat) : List String → String
  | [] => toString n
  | [suffix] => toString n ++ suffix
  | suffix :: rest => if n < 1000 then toString n ++ suffix else inThousands (n / 1000) rest

/-- The compact form of a value, rounded toward zero to thousands, millions or billions. -/
def compact (v : Int) : String :=
  (if v < 0 then "-" else "") ++ inThousands v.natAbs ["", "K", "M", "G"]

end CombinatorNet
