import CombinatorNet.Proofs.Coloring.Classes

/-!
# The coloring

The wires are colored in the order in which they were met. A class that is not yet decided becomes
red, and its opposite class green, so the coloring respects the forest.

## Main definitions

* `ColorClasses.coloring` — the colors of the wires and of the two channels

## Main results

* `ColorClasses.get?_colors` — which wires have a color
* `ColorClasses.exists_respects_coloring` — the coloring respects the forest
-/

namespace CombinatorNet.ColorClasses

variable {s : ColorClasses} {w : String}

/-- The colors of the wires, and those that the two channels stand for. -/
def coloring (s : ColorClasses) (w : String) : Option Color :=
  if w = redChannel then some .red
  else if w = greenChannel then some .green
  else s.colors.get? w

/-- Whenever a class is decided, so is its opposite class, the other way. -/
private def Balanced (s : ColorClasses) (decided : List (Nat × Color)) : Prop :=
  ∀ r r', s.Paired r r' → decided.lookup r' = (decided.lookup r).map Color.other

theorem lookup_cons (k x : Nat) (c : Color) (es : List (Nat × Color)) :
    ((k, c) :: es).lookup x = if x = k then some c else es.lookup x := by
  rw [List.lookup_cons]
  by_cases hx : x = k
  · simp [hx]
  · rw [beq_false_of_ne hx, if_neg hx]

/-- Deciding a class and its opposite class keeps the balance. -/
private theorem Balanced.decide {decided : List (Nat × Color)} (h : s.Balanced decided)
    {a a' : Nat} (ha : s.Paired a a') : s.Balanced ((a', .green) :: (a, .red) :: decided) := by
  intro r r' hp
  simp only [lookup_cons]
  have hleft : r = a ↔ r' = a' := hp.eq_iff ha
  have hright : r = a' ↔ r' = a := hp.eq_iff ha.symm
  by_cases hra : r = a
  · rw [if_pos (hleft.mp hra), if_neg (hra.trans_ne ha.ne), if_pos hra]
    rfl
  · by_cases hra' : r = a'
    · rw [if_neg (fun heq => hra (hleft.mpr heq)), if_pos (hright.mp hra'), if_pos hra']
      rfl
    · rw [if_neg (fun heq => hra (hleft.mpr heq)), if_neg (fun heq => hra' (hright.mpr heq)),
        if_neg hra', if_neg hra]
      exact h r r' hp

theorem go_of_decided {decided : List (Nat × Color)} {c : Color}
    (h : decided.lookup (s.classOf w) = some c) (ws : List String) :
    colorList.go s decided (w :: ws) = (w, c) :: colorList.go s decided ws := by
  rw [classOf, nodeOf] at h
  simp only [colorList.go, h]

theorem go_of_undecided {decided : List (Nat × Color)}
    (h : decided.lookup (s.classOf w) = none) (ws : List String) :
    colorList.go s decided (w :: ws) = (w, .red) :: colorList.go s
      ((s.rival w, .green) :: (s.classOf w, .red) :: decided) ws := by
  rw [classOf, nodeOf] at h
  simp only [colorList.go, h]
  rfl

/-- Some colors of the classes go on with those decided before, and give the wires of the list
their colors. -/
private theorem exists_colors_go (h : Valid s) {ws : List String} (hws : ∀ w ∈ ws, s.Knows w)
    {decided : List (Nat × Color)} (hdec : s.Balanced decided) :
    ∃ g : Nat → Color, (∀ r c, decided.lookup r = some c → g r = c) ∧
      (∀ w ∈ ws, g (s.rival w) = (g (s.classOf w)).other) ∧
      colorList.go s decided ws = ws.map fun w => (w, g (s.classOf w)) := by
  -- By induction on the wires that are left, with what has been decided so far.
  induction ws generalizing decided with
  | nil =>
    refine ⟨fun r => (decided.lookup r).getD .red, fun r c hc => ?_, by simp, rfl⟩
    simp only [hc, Option.getD_some]
  | cons w ws ih =>
    obtain ⟨hw, hws⟩ := List.forall_mem_cons.mp hws
    have hp := h.paired w hw
    cases hc : decided.lookup (s.classOf w) with
    | some c =>
      -- The class has its color already, and by the balance its opposite class has the other one.
      obtain ⟨g, hg, hrival, hlist⟩ := ih hws hdec
      have hrival' : decided.lookup (s.rival w) = some c.other := by
        rw [hdec _ _ hp, hc, Option.map_some]
      refine ⟨g, hg, List.forall_mem_cons.mpr ⟨?_, hrival⟩, ?_⟩
      · rw [hg _ _ hc, hg _ _ hrival']
      · rw [go_of_decided hc, List.map_cons, hg _ _ hc, hlist]
    | none =>
      -- The class becomes red now, and its opposite class green.
      obtain ⟨g, hg, hrival, hlist⟩ := ih hws (hdec.decide hp)
      have hclass : g (s.classOf w) = .red :=
        hg _ _ (by rw [lookup_cons, if_neg hp.ne, lookup_cons, if_pos rfl])
      have hopp : g (s.rival w) = .green := hg _ _ (by rw [lookup_cons, if_pos rfl])
      refine ⟨g, fun r c hr => hg r c ?_, List.forall_mem_cons.mpr ⟨?_, hrival⟩, ?_⟩
      · -- A class that was decided before is neither of the two.
        have hne : r ≠ s.classOf w := by
          rintro rfl
          rw [hc] at hr
          cases hr
        have hne' : r ≠ s.rival w := by
          rintro rfl
          rw [hdec _ _ hp, hc] at hr
          cases hr
        rw [lookup_cons, if_neg hne', lookup_cons, if_neg hne, hr]
      · rw [hclass, hopp]
        rfl
      · rw [go_of_undecided hc, List.map_cons, hclass, hlist]

/-- The colors in the list are those of a coloring that respects the forest. -/
theorem exists_respects_colorList (h : Valid s) :
    ∃ f, s.Respects f ∧ s.colorList = s.order.toList.map fun w => (w, f w) := by
  have hnone : s.Balanced [] := fun _ _ _ => rfl
  obtain ⟨g, -, hrival, hlist⟩ := exists_colors_go h (fun w hw => (h.mem_order w).mp hw) hnone
  exact ⟨fun w => g (s.classOf w),
    ⟨g, fun w hw => ⟨rfl, hrival w ((h.mem_order w).mpr hw)⟩⟩, hlist⟩

/-- The wire that was met first is red, as no class is decided before it. -/
theorem eq_red_of_head? {f : String → Color}
    (hlist : s.colorList = s.order.toList.map fun w => (w, f w))
    (hfirst : s.order.toList.head? = some w) : f w = .red := by
  obtain ⟨rest, horder⟩ := List.head?_eq_some_iff.mp hfirst
  rw [colorList, horder, List.map_cons] at hlist
  exact (congrArg Prod.snd (List.cons.inj hlist).1).symm

/-- The wires other than the channels have the colors in the list. -/
theorem get?_colors (h : Valid s) {f : String → Color}
    (hlist : s.colorList = s.order.toList.map fun w => (w, f w)) (w : String) :
    s.colors.get? w =
      if w ∈ s.order.toList ∧ w ≠ redChannel ∧ w ≠ greenChannel then some (f w) else none := by
  rw [colors, hlist]
  split
  · next hw =>
    refine NameMap.get?_ofList_of_mem ?_ (List.mem_filter.mpr ⟨?_, by simp [hw.2]⟩)
    · refine ((List.filter_sublist).map _).nodup ?_
      rw [List.map_map]
      simpa [Function.comp_def] using h.nodup_order
    · exact List.mem_map.mpr ⟨w, hw.1, rfl⟩
  · next hw =>
    refine NameMap.get?_ofList_of_notMem fun hmem => hw ?_
    obtain ⟨e, he, rfl⟩ := List.mem_map.mp hmem
    obtain ⟨hlisted, hother⟩ := List.mem_filter.mp he
    obtain ⟨v, hv, rfl⟩ := List.mem_map.mp hlisted
    exact ⟨hv, by simpa using hother⟩

/-- The coloring of the wires respects the forest, given that the red channel was met first and
differs from the green one. -/
theorem exists_respects_coloring (h : Valid s) (hred : s.order.toList.head? = some redChannel)
    (hdiffer : ∀ f, s.Respects f → f redChannel ≠ f greenChannel) :
    ∃ f, s.Respects f ∧ ∀ w, s.Knows w → s.coloring w = some (f w) := by
  obtain ⟨f, hf, hlist⟩ := exists_respects_colorList h
  have hredColor := eq_red_of_head? hlist hred
  have hgreenColor : f greenChannel = .green := by
    rw [Color.ne_iff_eq_other.mp (hdiffer f hf).symm, hredColor]
    rfl
  -- The channels have their own colors, and any other wire the one in the list.
  refine ⟨f, hf, fun w hw => ?_⟩
  rw [coloring]
  split
  · next heq => rw [heq, hredColor]
  · split
    · next heq => rw [heq, hgreenColor]
    · next hne hne' => rw [get?_colors h hlist, if_pos ⟨(h.mem_order w).mpr hw, hne, hne'⟩]

end CombinatorNet.ColorClasses
