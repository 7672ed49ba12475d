/-!
# Machine words

Sizes and slots are kept in unsigned words of 64 bits, and the sums of literals in signed ones. A
result that leaves its word wraps around in a release build; a build with overflow checks panics
instead.

## Main definitions

* `wordSize`, `wrapped` — the size of an unsigned word, and what it keeps of a number
* `memoryLimit` — the size of a memory
* `FitsWord`, `inWord?` — the integers of a signed word, and a result that is checked to be one
* `Checked` — what a build with overflow checks comes to
* `Checked.Follows` — it comes to the same as a release build unless it panics

## Main results

* `wrapped_le`, `wrapped_eq_self` — a word keeps a number that fits, and less of any other
* `Checked.Follows.bind` — steps that follow a release build can be put together
-/

namespace CombinatorNet

/-- How many numbers an unsigned word has. -/
def wordSize : Nat := 0x10000000000000000

/-- What an unsigned word keeps of a number. -/
def wrapped (n : Nat) : Nat := n % wordSize

theorem wrapped_le (n : Nat) : wrapped n ≤ n := Nat.mod_le _ _

theorem wrapped_eq_self {n : Nat} (h : n < wordSize) : wrapped n = n := Nat.mod_eq_of_lt h

/-- No memory has room for more elements than this: the sizes of allocations are kept in signed
words. -/
def memoryLimit : Nat := 0x8000000000000000

/-- Whether an integer fits in a signed 64-bit word. -/
def FitsWord (v : Int) : Prop := -0x8000000000000000 ≤ v ∧ v < 0x8000000000000000

instance (v : Int) : Decidable (FitsWord v) := inferInstanceAs (Decidable (_ ∧ _))

/-- The result of a step, if it fits in a signed 64-bit word. -/
def inWord? (v : Int) : Option Int := if FitsWord v then some v else none

theorem inWord?_eq_some {v : Int} (h : FitsWord v) : inWord? v = some v := if_pos h

theorem inWord?_eq_some_iff {v w : Int} : inWord? v = some w ↔ FitsWord v ∧ v = w := by
  rw [inWord?]
  split
  · next h => simp [h]
  · next h => simp [h]

/-- What a build with overflow checks comes to: a result or a fault, or nothing if it panics. -/
abbrev Checked (ε α : Type) := ExceptT ε Option α

namespace Checked

variable {ε α β : Type}

/-- What a release build comes to, if the numbers on the way fit in words. -/
def ifFits (fits : Prop) [Decidable fits] (outcome : Except ε α) : Checked ε α :=
  .mk (if fits then some outcome else none)

theorem run_ifFits (fits : Prop) [Decidable fits] (outcome : Except ε α) :
    (ifFits fits outcome).run = if fits then some outcome else none := rfl

theorem run_ifFits_eq_none_iff {fits : Prop} [Decidable fits] {outcome : Except ε α} :
    (ifFits fits outcome).run = none ↔ ¬ fits := by
  rw [run_ifFits]
  split
  · next h => simp [h]
  · next h => simp [h]

/-- A build with overflow checks comes to the same as a release build, or it panics. -/
def Follows (x : Checked ε α) (outcome : Except ε α) : Prop := x.run = some outcome ∨ x.run = none

theorem follows_ifFits (fits : Prop) [Decidable fits] (outcome : Except ε α) :
    (ifFits fits outcome).Follows outcome := by
  rw [Follows, run_ifFits]
  split
  · exact .inl rfl
  · exact .inr rfl

/-- A step without numbers is the same in both builds. -/
theorem follows_lift (outcome : Except ε α) : (liftM outcome : Checked ε α).Follows outcome :=
  .inl rfl

theorem Follows.eq_of_run {x : Checked ε α} {outcome result : Except ε α} (h : x.Follows outcome)
    (hrun : x.run = some result) : outcome = result := by
  rcases h with hx | hx <;> rw [hx] at hrun <;> cases hrun
  rfl

/-- Without a panic, what comes next depends on the outcome so far. -/
theorem run_bind_of_run {x : Checked ε α} {outcome : Except ε α} (h : x.run = some outcome)
    (f : α → Checked ε β) :
    (x >>= f).run = match outcome with
      | .ok a => (f a).run
      | .error e => some (.error e) := by
  cases outcome <;> simp [ExceptT.run_bind, h]

theorem run_bind_eq_none_iff {x : Checked ε α} {f : α → Checked ε β} :
    (x >>= f).run = none ↔ x.run = none ∨ ∃ a, x.run = some (.ok a) ∧ (f a).run = none := by
  rw [ExceptT.run_bind]
  rcases x.run with _ | _ | a <;> simp

/-- Steps that follow a release build can be put together. -/
theorem Follows.bind {x : Checked ε α} {outcome : Except ε α} {f : α → Checked ε β}
    {g : α → Except ε β} (hx : x.Follows outcome) (hf : ∀ a, (f a).Follows (g a)) :
    (x >>= f).Follows (outcome >>= g) := by
  rcases hx with hx | hx
  · rw [Follows, run_bind_of_run hx]
    cases outcome with
    | ok a => exact hf a
    | error e => exact .inl rfl
  · exact .inr (by simp [ExceptT.run_bind, hx])

end Checked

end CombinatorNet
