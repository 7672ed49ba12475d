/-!
# Loops that end

A loop is given by its body, which takes a state on to another one or stops with a result. Recursive
definitions that count their rounds have the results of such loops; the rounds that they allow must
then be enough for the loop to stop by itself.

## Main definitions

* `Ends` — a loop ends after some rounds with a result
-/

namespace CombinatorNet

/-- A loop, whose body takes a state on to another one or stops with a result, goes on for a number
of rounds from a state and then stops. -/
inductive Ends {α β : Type} (body : α → α ⊕ β) : α → Nat → β → Prop
  | stop {a : α} {b : β} (h : body a = .inr b) : Ends body a 0 b
  | goOn {a a' : α} {rounds : Nat} {b : β} (h : body a = .inl a') (rest : Ends body a' rounds b) :
      Ends body a (rounds + 1) b

end CombinatorNet
