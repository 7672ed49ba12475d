import CombinatorNet.Signal.SignalSet
import Mathlib.Algebra.BigOperators.Group.Finset.Basic

/-!
# Sums over signals and over sets

The present signals of a set are a finite set of names, so that what is added up or tested entry by
entry can be said of the names and their values. A sum of several sets is, signal by signal, a
saturating sum from the left.

## Main definitions

* `SignalSet.present` — the names of the present signals
* `saturatedSum` — the sum from the left of values, which saturates after each of them
* `OrderFree` — values that are all of one sign, or too small to saturate

## Main results

* `SignalSet.mem_present_merge`, `SignalSet.mem_present_filterMap` — no signal comes from nowhere
* `SignalSet.mem_present_iff` — the present signals are those of a value other than 0
* `SignalSet.total_map`, `SignalSet.total_filter_map` — totals over entries as sums over names
* `SignalSet.get_mergeAll` — a sum of sets through `get`
* `OrderFree.saturatedSum_perm`, `saturatedSum_perm_of_length_le_two` — sums that do not depend on
  their order
-/

namespace CombinatorNet

/-- The sum of values from the left, which saturates after each of them. -/
def saturatedSum (values : List Int) : Int := values.foldl (fun acc v => saturate (acc + v)) 0

theorem total_cons (v : Int) (values : List Int) : total (v :: values) = v + total values := rfl

namespace SignalSet

variable {s : SignalSet}

/-! ### Present signals -/

/-- The names of the present signals. -/
def present (s : SignalSet) : Finset String := s.values.names.toFinset

theorem nodup_names (s : SignalSet) : (s.toList.map Prod.fst).Nodup := by
  refine List.pairwise_map.mpr (s.values.ascending.imp fun {a b} hlt heq => ?_)
  exact String.lt_irrefl _ (heq ▸ hlt)

theorem get_of_mem_toList {e : String × Int} (h : e ∈ s.toList) : s.get e.1 = e.2 := by
  rw [get, NameMap.mem_toList_iff.mp h, Option.getD_some]

/-- The present signals of a canonical set are those of a value other than 0. -/
theorem mem_present_iff (h : s.Canonical) {name : String} : name ∈ s.present ↔ s.get name ≠ 0 := by
  rw [present, List.mem_toFinset, NameMap.mem_names_iff, get]
  cases hv : s.values.get? name with
  | none => simp
  | some v => simpa using (h name v hv).1

theorem exists_mem_toList_iff {p : Int → Prop} :
    (∃ e ∈ s.toList, p e.2) ↔ ∃ name ∈ s.present, p (s.get name) := by
  simp only [present, List.mem_toFinset, NameMap.names, List.mem_map]
  constructor
  · rintro ⟨e, he, hp⟩
    exact ⟨e.1, ⟨e, he, rfl⟩, (get_of_mem_toList he).symm ▸ hp⟩
  · rintro ⟨_, ⟨e, he, rfl⟩, hp⟩
    exact ⟨e, he, get_of_mem_toList he ▸ hp⟩

theorem forall_mem_toList_iff {p : Int → Prop} :
    (∀ e ∈ s.toList, p e.2) ↔ ∀ name ∈ s.present, p (s.get name) := by
  have h := not_congr (exists_mem_toList_iff (s := s) (p := fun v => ¬ p v))
  simpa using h

/-- The total over the entries is the sum over the present signals. -/
theorem total_map (s : SignalSet) (f : Int → Int) :
    total (s.toList.map fun e => f e.2) = ∑ name ∈ s.present, f (s.get name) := by
  have hmap : (s.toList.map fun e => f e.2) =
      (s.toList.map Prod.fst).map fun name => f (s.get name) := by
    rw [List.map_map]
    exact List.map_congr_left fun e he => by rw [Function.comp_apply, get_of_mem_toList he]
  rw [hmap, present]
  exact (List.sum_toFinset _ s.nodup_names).symm

/-- Entries that fail a test might as well count 0. -/
private theorem total_filter (es : List (String × Int)) (test : Int → Bool) (f : Int → Int) :
    total ((es.filter fun e => test e.2).map fun e => f e.2) =
      total (es.map fun e => if test e.2 then f e.2 else 0) := by
  induction es with
  | nil => rfl
  | cons e es ih =>
    rw [List.filter_cons, List.map_cons, total_cons, ← ih]
    split
    · rw [List.map_cons, total_cons]
    · rw [Int.zero_add]

/-- The total over the entries that pass a test is the sum over the present signals that do. -/
theorem total_filter_map (s : SignalSet) (test : Int → Bool) (f : Int → Int) :
    total ((s.toList.filter fun e => test e.2).map fun e => f e.2) =
      ∑ name ∈ s.present with test (s.get name), f (s.get name) := by
  rw [total_filter, total_map s fun v => if test v then f v else 0, Finset.sum_filter]

/-! ### Where signals come from -/

theorem mem_present {name : String} : name ∈ s.present ↔ (s.values.get? name).isSome := by
  rw [present, List.mem_toFinset, NameMap.mem_names_iff]

@[simp] theorem notMem_present_empty (name : String) : name ∉ (∅ : SignalSet).present := by
  rw [mem_present]
  exact Bool.false_ne_true

/-- Putting a signal makes no other signal present. -/
theorem mem_present_set {name k : String} {v : Int} (h : name ∈ (s.set k v).present) :
    name = k ∨ name ∈ s.present := by
  rw [mem_present] at h ⊢
  rw [set] at h
  by_cases hname : name = k
  · exact .inl hname
  · refine .inr ?_
    split at h
    · rwa [NameMap.get?_erase, if_neg hname] at h
    · rwa [NameMap.get?_insert, if_neg hname] at h

/-- Putting one signal after the other makes only these present. -/
private theorem mem_present_foldl_set {name : String} (value : SignalSet → String × Int → Int)
    (es : List (String × Int)) {s : SignalSet}
    (h : name ∈ (es.foldl (fun acc e => acc.set e.1 (value acc e)) s).present) :
    name ∈ s.present ∨ name ∈ es.map Prod.fst := by
  induction es generalizing s with
  | nil => exact .inl h
  | cons e es ih =>
    rw [List.map_cons, List.mem_cons]
    rcases ih h with hs | hes
    · rcases mem_present_set hs with hname | hs
      · exact .inr (.inl hname)
      · exact .inl hs
    · exact .inr (.inr hes)

theorem mem_present_single {name k : String} {v : Int} (h : name ∈ (single k v).present) :
    name = k := by
  rcases mem_present_set h with hname | hempty
  · exact hname
  · exact absurd hempty (notMem_present_empty name)

theorem mem_present_filterMap {name : String} {f : Int → Option Int}
    (h : name ∈ (s.filterMap f).present) : name ∈ s.present := by
  rw [mem_present] at h ⊢
  rw [filterMap, NameMap.get?_filterMap] at h
  cases hv : s.values.get? name with
  | none => rw [hv] at h; cases h
  | some v => rfl

theorem mem_present_merge {t : SignalSet} {name : String} (h : name ∈ (s.merge t).present) :
    name ∈ s.present ∨ name ∈ t.present := by
  rcases mem_present_foldl_set (fun acc e => acc.get e.1 + e.2) t.toList h with hs | ht
  · exact .inl hs
  · exact .inr (List.mem_toFinset.mpr ht)

/-- A signal of a sum comes from one of the sets. -/
theorem exists_mem_present_of_mergeAll {sets : List SignalSet} {name : String}
    (h : name ∈ (mergeAll sets).present) : ∃ t ∈ sets, name ∈ t.present := by
  have step : ∀ (sets : List SignalSet) (s : SignalSet), name ∈ (sets.foldl merge s).present →
      name ∈ s.present ∨ ∃ t ∈ sets, name ∈ t.present := by
    intro sets
    induction sets with
    | nil => exact fun _ h => .inl h
    | cons t sets ih =>
      intro s h
      rcases ih _ h with hmerge | ⟨u, hu, hname⟩
      · rcases mem_present_merge hmerge with hs | ht
        · exact .inl hs
        · exact .inr ⟨t, List.mem_cons_self, ht⟩
      · exact .inr ⟨u, List.mem_cons_of_mem _ hu, hname⟩
  rcases step sets ∅ h with hempty | hsets
  · exact absurd hempty (notMem_present_empty name)
  · exact hsets

theorem mem_of_mem_present_collect {pairs : List (String × Int)} {name : String}
    (h : name ∈ (collect pairs).present) : name ∈ pairs.map Prod.fst := by
  rcases mem_present_foldl_set (fun acc e => literalTotal (acc.get e.1) e.2) pairs h with
    hempty | hpairs
  · exact absurd hempty (notMem_present_empty name)
  · exact hpairs

/-! ### Sums of sets -/

theorem Canonical.negated (h : s.Canonical) : s.negated.Canonical := by
  intro name v hv
  rw [SignalSet.negated, NameMap.get?_mapValues] at hv
  obtain ⟨u, hu, rfl⟩ := Option.map_eq_some_iff.mp hv
  obtain ⟨hne, hlow, hhigh⟩ := h name u hu
  exact ⟨by omega, by omega, by omega⟩

/-- A set without signals adds nothing. -/
@[simp] theorem merge_empty (s : SignalSet) : s.merge ∅ = s := rfl

/-- The sum of several sets is the saturating sum, signal by signal. -/
theorem get_mergeAll (sets : List SignalSet) (name : String) :
    (mergeAll sets).get name = saturatedSum (sets.map (·.get name)) := by
  -- By induction on the sets, with any canonical set to begin with.
  have step : ∀ (sets : List SignalSet) (s : SignalSet), s.Canonical →
      (sets.foldl merge s).get name =
        (sets.map (·.get name)).foldl (fun acc v => saturate (acc + v)) (s.get name) := by
    intro sets
    induction sets with
    | nil => exact fun _ _ => rfl
    | cons t sets ih =>
      intro s hs
      rw [List.foldl_cons, ih _ (canonical_merge hs t), get_merge hs, List.map_cons,
        List.foldl_cons]
  exact step sets ∅ canonical_empty

/-- Sets that are missing count as empty. -/
theorem mergeAll_filterMap {α : Type} (f : α → Option SignalSet) (xs : List α) :
    mergeAll (xs.filterMap f) = mergeAll (xs.map fun x => (f x).getD ∅) := by
  have step : ∀ (xs : List α) (s : SignalSet),
      (xs.filterMap f).foldl merge s = (xs.map fun x => (f x).getD ∅).foldl merge s := by
    intro xs
    induction xs with
    | nil => exact fun _ => rfl
    | cons x xs ih =>
      intro s
      cases hx : f x with
      | none =>
        rw [List.filterMap_cons_none hx, List.map_cons, hx, List.foldl_cons, Option.getD_none,
          merge_empty, ih]
      | some t =>
        rw [List.filterMap_cons_some hx, List.map_cons, hx, List.foldl_cons, List.foldl_cons,
          Option.getD_some, ih]
  exact step xs ∅

end SignalSet

/-! ### Sums in any order

A saturating sum depends on the order of its values: what goes beyond the bound is lost to the
values that come later. It does not if the values are all of one sign, or if even their magnitudes
do not go beyond the bound. -/

variable {values others : List Int}

/-- Values that are all of one sign, or whose magnitudes make up no more than the bound. -/
def OrderFree (values : List Int) : Prop :=
  (∀ v ∈ values, 0 ≤ v) ∨ (∀ v ∈ values, v ≤ 0) ∨
    total (values.map fun v => (v.natAbs : Int)) ≤ signalMax

instance (values : List Int) : Decidable (OrderFree values) :=
  inferInstanceAs (Decidable (_ ∨ _ ∨ _))

theorem total_perm (h : values.Perm others) : total values = total others := h.sum_eq

private theorem total_natAbs_nonneg (values : List Int) :
    0 ≤ total (values.map fun v => (v.natAbs : Int)) := by
  induction values with
  | nil => exact Int.le_refl 0
  | cons v values ih => rw [List.map_cons, total_cons]; omega

/-- To add values to a sum that has saturated is to add them to the exact sum, as long as it moves
away from 0 or stays within the bounds. -/
private theorem foldl_add_saturate {acc : Int}
    (h : (0 ≤ acc ∧ ∀ v ∈ values, 0 ≤ v) ∨ (acc ≤ 0 ∧ ∀ v ∈ values, v ≤ 0) ∨
      acc.natAbs + total (values.map fun v => (v.natAbs : Int)) ≤ signalMax) :
    values.foldl (fun acc v => saturate (acc + v)) (saturate acc) =
      saturate (acc + total values) := by
  induction values generalizing acc with
  | nil => exact congrArg saturate (Int.add_zero acc).symm
  | cons v values ih =>
    simp only [List.forall_mem_cons, List.map_cons, total_cons] at h
    have hnonneg := total_natAbs_nonneg values
    -- The sum had not saturated, or this value leads further away from 0.
    have hstep : saturate (saturate acc + v) = saturate (acc + v) := by
      simp only [saturate, signalMax] at h ⊢
      omega
    rw [List.foldl_cons, hstep, ih, total_cons, Int.add_assoc]
    obtain ⟨hacc, hv, hvalues⟩ | ⟨hacc, hv, hvalues⟩ | hsmall := h
    · exact .inl ⟨Int.add_nonneg hacc hv, hvalues⟩
    · exact .inr (.inl ⟨by omega, hvalues⟩)
    · exact .inr (.inr (by omega))

theorem OrderFree.saturatedSum_eq (h : OrderFree values) :
    saturatedSum values = saturate (total values) := by
  have hzero : values.foldl (fun acc v => saturate (acc + v)) (saturate 0) =
      saturate (0 + total values) := by
    refine foldl_add_saturate ?_
    obtain hnonneg | hnonpos | hsmall := h
    · exact .inl ⟨Int.le_refl 0, hnonneg⟩
    · exact .inr (.inl ⟨Int.le_refl 0, hnonpos⟩)
    · exact .inr (.inr (by simpa using hsmall))
  rwa [Int.zero_add] at hzero

theorem OrderFree.perm (h : OrderFree values) (hperm : values.Perm others) : OrderFree others := by
  obtain hnonneg | hnonpos | hsmall := h
  · exact .inl fun v hv => hnonneg v (hperm.mem_iff.mpr hv)
  · exact .inr (.inl fun v hv => hnonpos v (hperm.mem_iff.mpr hv))
  · exact .inr (.inr (total_perm (hperm.map _) ▸ hsmall))

/-- Values of one sign, and small ones, add up to the same in any order. -/
theorem OrderFree.saturatedSum_perm (h : OrderFree values) (hperm : values.Perm others) :
    saturatedSum values = saturatedSum others := by
  rw [h.saturatedSum_eq, (h.perm hperm).saturatedSum_eq, total_perm hperm]

/-- Otherwise the order counts: here 5 is lost before 3 is taken away, or 3 is taken from it. -/
example : saturatedSum [2147483647, 5, -3] = 2147483644 ∧
    saturatedSum [5, -3, 2147483647] = 2147483647 := by decide

private theorem saturatedSum_eq_of_length_le_two (hlen : values.length ≤ 2)
    (h : ∀ v ∈ values, InRange v) : saturatedSum values = saturate (total values) := by
  match values with
  | [] => rfl
  | [a] => simp [saturatedSum, total]
  | [a, b] =>
    have ha : saturate a = a := saturate_eq_self (h a List.mem_cons_self)
    simp [saturatedSum, total, ha]
  | _ :: _ :: _ :: _ => simp at hlen

/-- Two signal values add up to the same in either order, whatever they are. -/
theorem saturatedSum_perm_of_length_le_two (hlen : values.length ≤ 2)
    (h : ∀ v ∈ values, InRange v) (hperm : values.Perm others) :
    saturatedSum values = saturatedSum others := by
  rw [saturatedSum_eq_of_length_le_two hlen h,
    saturatedSum_eq_of_length_le_two (hperm.length_eq ▸ hlen)
      fun v hv => h v (hperm.mem_iff.mpr hv), total_perm hperm]

end CombinatorNet
