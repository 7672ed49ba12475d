import CombinatorNet.NameMap
import CombinatorNet.Signal.Value

/-!
# Signal sets

What one wire carries during one tick: a value for each signal name, where a signal of value 0 is
absent. Adding sets adds signal by signal and saturates.

## Main definitions

* `SignalSet.get`, `SignalSet.set` — read and put one signal
* `SignalSet.merge`, `SignalSet.negated`, `SignalSet.filterMap` — signal-wise sum, negative and
  image
* `SignalSet.collect`, `SignalSet.collectChecked` — the set of a list of literal values, in which a
  repeated name adds up, without and with overflow checks
* `SignalSet.Canonical` — every entry is a signal value other than 0
* `SignalSet.text` — the printed form

## Main results

* `SignalSet.get_set`, `SignalSet.get_merge`, `SignalSet.get_negated`, `SignalSet.get_filterMap` —
  each operation through `get`
* `SignalSet.canonical_set`, `SignalSet.canonical_merge`, `SignalSet.canonical_collect`,
  `SignalSet.canonical_filterMap` — sets stay canonical
* `SignalSet.ext_get` — canonical sets with the same values are equal
-/

namespace CombinatorNet

/-- A finite map from signal names to values. -/
structure SignalSet where
  /-- The present signals. -/
  values : NameMap Int
deriving DecidableEq

namespace SignalSet

/-- The set without signals. -/
def empty : SignalSet := ⟨∅⟩

instance : EmptyCollection SignalSet := ⟨empty⟩

instance : Inhabited SignalSet := ⟨empty⟩

/-- The present signals with their values, in ascending order of their names. -/
def toList (s : SignalSet) : List (String × Int) := s.values.toList

/-- How many signals are present. -/
def size (s : SignalSet) : Nat := s.values.size

/-- Whether no signal is present. -/
def isEmpty (s : SignalSet) : Bool := s.values.isEmpty

/-- The value of a signal, 0 if it is absent. -/
def get (s : SignalSet) (name : String) : Int := (s.values.get? name).getD 0

/-- The set with one signal put to the saturated value, or removed if that is 0. -/
def set (s : SignalSet) (name : String) (v : Int) : SignalSet :=
  if saturate v = 0 then ⟨s.values.erase name⟩ else ⟨s.values.insert name (saturate v)⟩

/-- The set with only one signal. -/
def single (name : String) (v : Int) : SignalSet := empty.set name v

/-- The signal-wise sum of two sets. -/
def merge (s t : SignalSet) : SignalSet :=
  t.toList.foldl (fun acc e => acc.set e.1 (acc.get e.1 + e.2)) s

/-- The sum of a list of sets, from the left. -/
def mergeAll (sets : List SignalSet) : SignalSet := sets.foldl merge empty

/-- The set with every value negated. -/
def negated (s : SignalSet) : SignalSet := ⟨s.values.mapValues (fun v => -v)⟩

/-- The set with each present value replaced by its saturated image, or dropped if it has none. -/
def filterMap (f : Int → Option Int) (s : SignalSet) : SignalSet :=
  ⟨s.values.filterMap fun v => (f v).bind fun w => if saturate w = 0 then none else some (saturate w)⟩

/-- The set of a list of literal values in a release build: each one is added to what its name has
so far, and the total saturates. -/
def collect (pairs : List (String × Int)) : SignalSet :=
  pairs.foldl (fun acc e => acc.set e.1 (literalTotal (acc.get e.1) e.2)) empty

/-- The set of a list of literal values in a build with overflow checks. -/
def collectChecked (pairs : List (String × Int)) : Option SignalSet :=
  pairs.foldlM (fun acc e => do return acc.set e.1 (← literalTotalChecked (acc.get e.1) e.2)) empty

/-- The printed form, for example `a: 1, b: 2` between braces. -/
def text (s : SignalSet) : String :=
  "\x7b" ++ ", ".intercalate (s.toList.map fun e => e.1 ++ ": " ++ toString e.2) ++ "\x7d"

/-- Every present signal has a value other than 0 within the bounds. -/
def Canonical (s : SignalSet) : Prop :=
  ∀ name v, s.values.get? name = some v → v ≠ 0 ∧ InRange v

@[simp] theorem get_empty (name : String) : (∅ : SignalSet).get name = 0 := rfl

@[simp] theorem canonical_empty : Canonical ∅ := fun _ _ h => nomatch h

theorem get_set (s : SignalSet) (name other : String) (v : Int) :
    (s.set name v).get other = if other = name then saturate v else s.get other := by
  rw [set]
  split
  · next h =>
    simp only [get, NameMap.get?_erase]
    split
    · exact h.symm
    · rfl
  · simp only [get, NameMap.get?_insert]
    split <;> rfl

@[simp] theorem get_set_self (s : SignalSet) (name : String) (v : Int) :
    (s.set name v).get name = saturate v := by
  rw [get_set, if_pos rfl]

theorem get_single (name other : String) (v : Int) :
    (single name v).get other = if other = name then saturate v else 0 :=
  get_set _ _ _ _

theorem get_negated (s : SignalSet) (name : String) : s.negated.get name = -s.get name := by
  simp only [get, negated, NameMap.get?_mapValues]
  cases s.values.get? name <;> simp

/-- Putting a value keeps a set canonical, whatever the value is. -/
theorem canonical_set {s : SignalSet} (h : s.Canonical) (name : String) (v : Int) :
    (s.set name v).Canonical := by
  intro other w hw
  rw [set] at hw
  split at hw
  · rw [NameMap.get?_erase] at hw
    split at hw
    · exact nomatch hw
    · exact h other w hw
  · next hv =>
    rw [NameMap.get?_insert] at hw
    split at hw
    · cases hw; exact ⟨hv, inRange_saturate v⟩
    · exact h other w hw

/-- Changing values keeps nothing but signal values other than 0. -/
theorem canonical_filterMap (f : Int → Option Int) (s : SignalSet) : (s.filterMap f).Canonical := by
  intro name v h
  rw [filterMap, NameMap.get?_filterMap] at h
  obtain ⟨u, -, hu⟩ := Option.bind_eq_some_iff.1 h
  obtain ⟨w, -, hw⟩ := Option.bind_eq_some_iff.1 hu
  split at hw
  · cases hw
  · next hne => cases hw; exact ⟨hne, inRange_saturate w⟩

theorem inRange_get {s : SignalSet} (h : s.Canonical) (name : String) : InRange (s.get name) := by
  rw [get]
  cases hv : s.values.get? name with
  | none => decide
  | some v => exact (h name v hv).2

theorem get_filterMap (f : Int → Option Int) (s : SignalSet) (name : String) :
    (s.filterMap f).get name = ((s.values.get? name).bind f).elim 0 saturate := by
  rw [get, filterMap, NameMap.get?_filterMap]
  cases s.values.get? name with
  | none => rfl
  | some v =>
    rw [Option.bind_some, Option.bind_some]
    cases f v with
    | none => rfl
    | some w =>
      rw [Option.bind_some, Option.elim_some]
      split
      · next h => exact h.symm
      · rfl

/-- Adding the entries of a list one by one keeps a set canonical. -/
theorem canonical_foldl_add {s : SignalSet} (h : s.Canonical) (es : List (String × Int)) :
    (es.foldl (fun acc e => acc.set e.1 (acc.get e.1 + e.2)) s).Canonical := by
  induction es generalizing s with
  | nil => exact h
  | cons e es ih => exact ih (canonical_set h _ _)

/-- A sum of sets is canonical if the first one is. -/
theorem canonical_merge {s : SignalSet} (h : s.Canonical) (t : SignalSet) : (s.merge t).Canonical :=
  canonical_foldl_add h _

theorem canonical_mergeAll (sets : List SignalSet) : (mergeAll sets).Canonical := by
  have step : ∀ (sets : List SignalSet) (s : SignalSet), s.Canonical →
      (sets.foldl merge s).Canonical := by
    intro sets
    induction sets with
    | nil => exact fun s h => h
    | cons t sets ih => exact fun s h => ih _ (canonical_merge h t)
  exact step sets empty canonical_empty

/-- Whatever literals are collected, the set is canonical. -/
theorem canonical_collect (pairs : List (String × Int)) : (collect pairs).Canonical := by
  have step : ∀ (pairs : List (String × Int)) (s : SignalSet), s.Canonical →
      (pairs.foldl (fun acc e => acc.set e.1 (literalTotal (acc.get e.1) e.2)) s).Canonical := by
    intro pairs
    induction pairs with
    | nil => exact fun s h => h
    | cons e pairs ih => exact fun s h => ih _ (canonical_set h _ _)
  exact step pairs empty canonical_empty

/-- Adding entries of distinct names adds to each name at most once. -/
theorem get_foldl_add (es : List (String × Int)) (h : es.Pairwise (fun a b => a.1 < b.1))
    (s : SignalSet) (name : String) :
    (es.foldl (fun acc e => acc.set e.1 (acc.get e.1 + e.2)) s).get name =
      (NameMap.valueIn name es).elim (s.get name) fun v => saturate (s.get name + v) := by
  induction es generalizing s with
  | nil => rfl
  | cons e es ih =>
    obtain ⟨hlt, hes⟩ := List.pairwise_cons.1 h
    rw [List.foldl_cons, ih hes, get_set, NameMap.valueIn]
    by_cases hname : name = e.1
    · subst hname
      have hnone : NameMap.valueIn e.1 es = none := by
        cases hv : NameMap.valueIn e.1 es with
        | none => rfl
        | some v =>
          exact absurd (hlt _ ((NameMap.valueIn_eq_some_iff hes).1 hv)) (String.lt_irrefl _)
      rw [hnone, if_pos rfl, if_pos rfl]
      rfl
    · rw [if_neg hname, if_neg hname]

/-- The sum of sets is the saturated sum signal by signal. -/
theorem get_merge {s : SignalSet} (h : s.Canonical) (t : SignalSet) (name : String) :
    (s.merge t).get name = saturate (s.get name + t.get name) := by
  rw [merge, toList, NameMap.toList, get_foldl_add _ t.values.ascending]
  show (t.values.get? name).elim _ _ = saturate (s.get name + (t.values.get? name).getD 0)
  cases t.values.get? name with
  | some v => rfl
  | none =>
    rw [Option.elim_none, Option.getD_none, Int.add_zero]
    exact (saturate_eq_self (inRange_get h name)).symm

/-- A canonical set is determined by its values. -/
theorem ext_get {s t : SignalSet} (hs : s.Canonical) (ht : t.Canonical)
    (h : ∀ name, s.get name = t.get name) : s = t := by
  obtain ⟨m⟩ := s
  obtain ⟨n⟩ := t
  congr 1
  refine NameMap.ext_get? fun name => ?_
  have hname := h name
  simp only [get] at hname
  cases hm : m.get? name with
  | none =>
    cases hn : n.get? name with
    | none => rfl
    | some w =>
      rw [hm, hn] at hname
      exact absurd hname.symm (ht name w hn).1
  | some v =>
    cases hn : n.get? name with
    | none =>
      rw [hm, hn] at hname
      exact absurd hname (hs name v hm).1
    | some w =>
      rw [hm, hn] at hname
      exact congrArg some hname

end SignalSet

end CombinatorNet
