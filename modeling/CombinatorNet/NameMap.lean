/-!
# Maps from names

A `NameMap α` holds at most one value for each name, in ascending order of the names. Names compare
by code point, which is also the order of their UTF-8 bytes.

The order is part of the type, so a map is determined by its lookups (`NameMap.ext_get?`) and two
histories of insertions that leave the same values leave the same map.

## Main definitions

* `NameMap.get?`, `NameMap.insert`, `NameMap.erase` — look up, put and remove a name
* `NameMap.mapValues`, `NameMap.filterMap` — change or drop values
* `NameMap.ofList`, `NameMap.toList`, `NameMap.names`

## Main results

* `NameMap.get?_insert`, `NameMap.get?_erase`, `NameMap.get?_mapValues`, `NameMap.get?_filterMap` —
  each operation through `get?`
* `NameMap.ext_get?` — maps with the same lookups are equal
* `NameMap.mem_toList_iff` — the entries are exactly the lookups
-/

namespace CombinatorNet

/-- A finite map from names, its entries in ascending order of their names. -/
structure NameMap (α : Type) where
  /-- The name-value pairs. -/
  entries : List (String × α)
  /-- Each name stands before every later one. -/
  ascending : entries.Pairwise (fun a b => a.1 < b.1)
deriving DecidableEq

namespace NameMap

variable {α β : Type}

/-- The map without entries. -/
def empty : NameMap α := ⟨[], .nil⟩

instance : EmptyCollection (NameMap α) := ⟨empty⟩

instance : Inhabited (NameMap α) := ⟨empty⟩

/-- The entries in ascending order of their names. -/
def toList (m : NameMap α) : List (String × α) := m.entries

/-- The names in ascending order. -/
def names (m : NameMap α) : List String := m.entries.map (·.1)

/-- How many names have a value. -/
def size (m : NameMap α) : Nat := m.entries.length

/-- Whether no name has a value. -/
def isEmpty (m : NameMap α) : Bool := m.entries.isEmpty

/-! ### Entry lists -/

/-- The value that an entry list gives a name. -/
def valueIn (k : String) : List (String × α) → Option α
  | [] => none
  | (n, v) :: rest => if k = n then some v else valueIn k rest

/-- An ascending entry list with `k` set to `v`. -/
def insertIn (k : String) (v : α) : List (String × α) → List (String × α)
  | [] => [(k, v)]
  | (n, w) :: rest =>
    if k < n then (k, v) :: (n, w) :: rest
    else if k = n then (k, v) :: rest
    else (n, w) :: insertIn k v rest

/-- An entry list without `k`. -/
def eraseIn (k : String) (es : List (String × α)) : List (String × α) :=
  es.filter (fun e => e.1 != k)

theorem name_of_mem_insertIn {k : String} {v : α} {es : List (String × α)} {e : String × α}
    (h : e ∈ insertIn k v es) : e.1 = k ∨ e ∈ es := by
  induction es with
  | nil => simp_all [insertIn]
  | cons x rest ih =>
    obtain ⟨n, w⟩ := x
    rw [insertIn] at h
    split at h
    · rcases List.mem_cons.1 h with rfl | h
      · exact .inl rfl
      · exact .inr h
    · split at h
      · rcases List.mem_cons.1 h with rfl | h
        · exact .inl rfl
        · exact .inr (List.mem_cons_of_mem _ h)
      · rcases List.mem_cons.1 h with rfl | h
        · exact .inr List.mem_cons_self
        · exact (ih h).imp_right (List.mem_cons_of_mem _)

theorem pairwise_insertIn {k : String} {v : α} {es : List (String × α)}
    (h : es.Pairwise (fun a b => a.1 < b.1)) :
    (insertIn k v es).Pairwise (fun a b => a.1 < b.1) := by
  induction es with
  | nil => simp [insertIn]
  | cons x rest ih =>
    obtain ⟨n, w⟩ := x
    obtain ⟨hlt, hrest⟩ := List.pairwise_cons.1 h
    rw [insertIn]
    split
    · next hk =>
      refine List.pairwise_cons.2 ⟨fun e he => ?_, h⟩
      rcases List.mem_cons.1 he with rfl | he
      · exact hk
      · exact String.lt_trans hk (hlt e he)
    · next hk =>
      split
      · next heq =>
        subst heq
        exact List.pairwise_cons.2 ⟨fun e he => hlt e he, hrest⟩
      · next hne =>
        refine List.pairwise_cons.2 ⟨fun e he => ?_, ih hrest⟩
        rcases name_of_mem_insertIn he with rfl | he
        · exact Classical.byContradiction fun hn =>
            hne (String.le_antisymm (String.not_lt.1 hn) (String.not_lt.1 hk))
        · exact hlt e he

theorem valueIn_insertIn {k j : String} {v : α} {es : List (String × α)} :
    valueIn j (insertIn k v es) = if j = k then some v else valueIn j es := by
  induction es with
  | nil => simp [insertIn, valueIn]
  | cons x rest ih =>
    obtain ⟨n, w⟩ := x
    rw [insertIn]
    split
    · rw [valueIn]
    · split
      · next heq => subst heq; by_cases h : j = k <;> simp [valueIn, h]
      · next hne =>
        rw [valueIn, valueIn, ih]
        by_cases h : j = n
        · subst h
          rw [if_pos rfl, if_pos rfl, if_neg (fun h => hne h.symm)]
        · simp [h]

theorem valueIn_eraseIn {k j : String} {es : List (String × α)} :
    valueIn j (eraseIn k es) = if j = k then none else valueIn j es := by
  induction es with
  | nil => simp [eraseIn, valueIn]
  | cons x rest ih =>
    obtain ⟨n, w⟩ := x
    rw [eraseIn] at ih
    rw [eraseIn, List.filter_cons, valueIn]
    by_cases h : n = k
    · subst h
      simp only [bne_self_eq_false, Bool.false_eq_true, if_false, ih]
      split <;> rfl
    · rw [if_pos (by simpa using h), valueIn, ih]
      by_cases hj : j = n
      · subst hj; rw [if_pos rfl, if_pos rfl, if_neg h]
      · rw [if_neg hj, if_neg hj]

theorem valueIn_eq_some_iff {k : String} {v : α} {es : List (String × α)}
    (h : es.Pairwise (fun a b => a.1 < b.1)) : valueIn k es = some v ↔ (k, v) ∈ es := by
  induction es with
  | nil => simp [valueIn]
  | cons x rest ih =>
    obtain ⟨n, w⟩ := x
    obtain ⟨hlt, hrest⟩ := List.pairwise_cons.1 h
    rw [valueIn, List.mem_cons]
    split
    · next heq =>
      subst heq
      constructor
      · rintro ⟨⟩; exact .inl rfl
      · rintro (heq | hmem)
        · cases heq; rfl
        · exact absurd (hlt _ hmem) (String.lt_irrefl k)
    · next hne =>
      rw [ih hrest]
      exact ⟨.inr, fun h => h.resolve_left fun heq => hne (congrArg Prod.fst heq)⟩

/-- Ascending entry lists with the same values are equal. -/
theorem eq_of_valueIn {es fs : List (String × α)}
    (hes : es.Pairwise (fun a b => a.1 < b.1)) (hfs : fs.Pairwise (fun a b => a.1 < b.1))
    (h : ∀ k, valueIn k es = valueIn k fs) : es = fs := by
  induction es generalizing fs with
  | nil =>
    cases fs with
    | nil => rfl
    | cons x rest => have := h x.1; simp [valueIn] at this
  | cons x es ih =>
    cases fs with
    | nil => have := h x.1; simp [valueIn] at this
    | cons y fs =>
      obtain ⟨hx, hes'⟩ := List.pairwise_cons.1 hes
      obtain ⟨hy, hfs'⟩ := List.pairwise_cons.1 hfs
      have mem_iff : ∀ e, e ∈ x :: es ↔ e ∈ y :: fs := fun e => by
        rw [← valueIn_eq_some_iff (k := e.1) (v := e.2) hes, h,
          valueIn_eq_some_iff (k := e.1) (v := e.2) hfs]
      have hxy : x = y := by
        rcases List.mem_cons.1 ((mem_iff x).1 List.mem_cons_self) with heq | hmem
        · exact heq
        · rcases List.mem_cons.1 ((mem_iff y).2 List.mem_cons_self) with heq | hmem'
          · exact heq.symm
          · exact absurd (hx y hmem') (String.lt_asymm (hy x hmem))
      subst hxy
      refine congrArg (x :: ·) (ih hes' hfs' fun k => ?_)
      have hk := h k
      rw [valueIn, valueIn] at hk
      by_cases hkx : k = x.1
      · have none_of : ∀ (gs : List (String × α)), (∀ e ∈ gs, x.1 < e.1) → valueIn k gs = none := by
          intro gs hgs
          induction gs with
          | nil => rfl
          | cons z gs ih =>
            rw [valueIn, if_neg, ih fun e he => hgs e (List.mem_cons_of_mem _ he)]
            rintro rfl
            exact String.lt_irrefl _ (hkx ▸ hgs z List.mem_cons_self)
        rw [none_of es hx, none_of fs hy]
      · rwa [if_neg hkx, if_neg hkx] at hk

/-! ### Operations -/

/-- The value of a name. -/
def get? (m : NameMap α) (k : String) : Option α := valueIn k m.entries

/-- Whether a name has a value. -/
def contains (m : NameMap α) (k : String) : Bool := (m.get? k).isSome

/-- The map with `k` set to `v`. -/
def insert (m : NameMap α) (k : String) (v : α) : NameMap α :=
  ⟨insertIn k v m.entries, pairwise_insertIn m.ascending⟩

/-- The map without `k`. -/
def erase (m : NameMap α) (k : String) : NameMap α :=
  ⟨eraseIn k m.entries, m.ascending.filter _⟩

/-- The map with every value replaced by its image. -/
def mapValues (f : α → β) (m : NameMap α) : NameMap β :=
  ⟨m.entries.map (fun e => (e.1, f e.2)), List.pairwise_map.2 m.ascending⟩

/-- The map with every value replaced by its image, or dropped if it has none. -/
def filterMap (f : α → Option β) (m : NameMap α) : NameMap β :=
  ⟨m.entries.filterMap (fun e => (f e.2).map (e.1, ·)), by
    refine List.Pairwise.filterMap _ (fun a a' h b hb b' hb' => ?_) m.ascending
    obtain ⟨v, -, rfl⟩ := Option.map_eq_some_iff.1 hb
    obtain ⟨w, -, rfl⟩ := Option.map_eq_some_iff.1 hb'
    exact h⟩

/-- The map of a list of pairs, in which a later pair overrides an earlier one. -/
def ofList (es : List (String × α)) : NameMap α :=
  es.foldl (fun m e => m.insert e.1 e.2) empty

@[simp] theorem get?_empty (k : String) : (∅ : NameMap α).get? k = none := rfl

@[simp] theorem toList_empty : (∅ : NameMap α).toList = [] := rfl

theorem get?_insert (m : NameMap α) (k j : String) (v : α) :
    (m.insert k v).get? j = if j = k then some v else m.get? j :=
  valueIn_insertIn

@[simp] theorem get?_insert_self (m : NameMap α) (k : String) (v : α) :
    (m.insert k v).get? k = some v := by
  rw [get?_insert, if_pos rfl]

theorem get?_erase (m : NameMap α) (k j : String) :
    (m.erase k).get? j = if j = k then none else m.get? j :=
  valueIn_eraseIn

@[simp] theorem get?_erase_self (m : NameMap α) (k : String) : (m.erase k).get? k = none := by
  rw [get?_erase, if_pos rfl]

/-- A map is determined by its lookups. -/
theorem ext_get? {m n : NameMap α} (h : ∀ k, m.get? k = n.get? k) : m = n := by
  obtain ⟨es, hes⟩ := m
  obtain ⟨fs, hfs⟩ := n
  have := eq_of_valueIn hes hfs h
  subst this
  rfl

theorem mem_toList_iff {m : NameMap α} {k : String} {v : α} :
    (k, v) ∈ m.toList ↔ m.get? k = some v :=
  (valueIn_eq_some_iff m.ascending).symm

theorem mem_names_iff {m : NameMap α} {k : String} : k ∈ m.names ↔ (m.get? k).isSome := by
  rw [names, List.mem_map, Option.isSome_iff_exists]
  constructor
  · rintro ⟨⟨n, v⟩, hmem, rfl⟩
    exact ⟨v, mem_toList_iff.1 hmem⟩
  · rintro ⟨v, h⟩
    exact ⟨(k, v), mem_toList_iff.2 h, rfl⟩

@[simp] theorem get?_mapValues (f : α → β) (m : NameMap α) (k : String) :
    (m.mapValues f).get? k = (m.get? k).map f := by
  obtain ⟨es, hes⟩ := m
  show valueIn k (es.map _) = (valueIn k es).map f
  clear hes
  induction es with
  | nil => rfl
  | cons x rest ih =>
    obtain ⟨n, v⟩ := x
    rw [List.map_cons, valueIn, valueIn, ih]
    split <;> rfl

theorem get?_filterMap (f : α → Option β) (m : NameMap α) (k : String) :
    (m.filterMap f).get? k = (m.get? k).bind f := by
  cases h : (m.get? k).bind f with
  | some w =>
    obtain ⟨v, hv, hw⟩ := Option.bind_eq_some_iff.1 h
    refine mem_toList_iff.1 (List.mem_filterMap.2 ⟨(k, v), mem_toList_iff.2 hv, ?_⟩)
    simp [hw]
  | none =>
    cases hw : (m.filterMap f).get? k with
    | none => rfl
    | some w =>
      obtain ⟨⟨n, v⟩, hmem, heq⟩ := List.mem_filterMap.1 (mem_toList_iff.2 hw)
      obtain ⟨u, hu, heq⟩ := Option.map_eq_some_iff.1 heq
      cases heq
      have hv := mem_toList_iff.1 hmem
      rw [hv, Option.bind_some, hu] at h
      cases h

/-- Removing a name that was just put gives back the map, if the name had no value before. -/
theorem erase_insert {m : NameMap α} {k : String} (h : m.get? k = none) (v : α) :
    (m.insert k v).erase k = m := by
  refine ext_get? fun j => ?_
  rw [get?_erase, get?_insert]
  by_cases hj : j = k
  · subst hj; rw [if_pos rfl, h]
  · rw [if_neg hj, if_neg hj]

/-- Pairs for other names do not override a value. -/
theorem get?_foldl_insert_of_notMem {es : List (String × α)} {k : String}
    (h : k ∉ es.map (·.1)) (m : NameMap α) :
    (es.foldl (fun m e => m.insert e.1 e.2) m).get? k = m.get? k := by
  induction es generalizing m with
  | nil => rfl
  | cons e es ih =>
    obtain ⟨hke, hk⟩ := List.ne_and_not_mem_of_not_mem_cons h
    rw [List.foldl_cons, ih hk, get?_insert, if_neg hke]

theorem get?_ofList_of_notMem {es : List (String × α)} {k : String} (h : k ∉ es.map (·.1)) :
    (ofList es).get? k = none :=
  get?_foldl_insert_of_notMem h empty

/-- With names that do not repeat, every pair of a list is an entry of its map. -/
theorem get?_ofList_of_mem {es : List (String × α)} {k : String} {v : α}
    (hnodup : (es.map (·.1)).Nodup) (h : (k, v) ∈ es) : (ofList es).get? k = some v := by
  obtain ⟨before, after, rfl⟩ := List.append_of_mem h
  rw [List.map_append, List.map_cons] at hnodup
  have hk := (List.nodup_cons.1 (List.nodup_append.1 hnodup).2.1).1
  rw [ofList, List.foldl_append, List.foldl_cons, get?_foldl_insert_of_notMem hk, get?_insert_self]

end NameMap

end CombinatorNet
