import CombinatorNet.Proofs.Coloring.Preference

/-!
# Constraints on new wires

A call whose constraints name no wire that was met before, but channels perhaps, leaves the colors of
those that were. Their coloring and any one of the new wires make up a coloring together, as both
give the channels the same colors; and since the new wires come last, what is preferred for the
others does not depend on them.

## Main results

* `Preferred.antisymm`, `Preferred.of_append` — the order of lists of colors, and of their fronts
* `ColorClasses.Represents.get?_colors_answer` — the colors of all other wires
-/

namespace CombinatorNet

/-! ### The order of colors -/

namespace Preferred

variable {cs ds : List Color}

theorem cons_iff {c d : Color} :
    Preferred (c :: cs) (d :: ds) ↔ c = .red ∧ d = .green ∨ c = d ∧ Preferred cs ds := by
  constructor
  · rintro (heq | hlex)
    · obtain ⟨rfl, rfl⟩ := List.cons.inj heq
      exact .inr ⟨rfl, .inl rfl⟩
    · cases hlex with
      | rel hrel => exact .inl hrel
      | cons hlex => exact .inr ⟨rfl, .inr hlex⟩
  · rintro (hrel | ⟨rfl, h⟩)
    · exact .inr (.rel hrel)
    · exact h.cons c

/-- Lists that are preferred to each other are the same. -/
theorem antisymm (h : Preferred cs ds) (h' : Preferred ds cs) (hlength : cs.length = ds.length) :
    cs = ds := by
  induction cs generalizing ds with
  | nil => exact (List.length_eq_zero_iff.mp hlength.symm).symm
  | cons c cs ih =>
    obtain _ | ⟨d, ds⟩ := ds
    · cases hlength
    · rw [cons_iff] at h h'
      rcases h with ⟨rfl, rfl⟩ | ⟨rfl, h⟩
      · rcases h' with ⟨hne, -⟩ | ⟨hne, -⟩ <;> cases hne
      · rcases h' with ⟨rfl, hne⟩ | ⟨-, h'⟩
        · cases hne
        · rw [ih h h' (Nat.succ.inj hlength)]

/-- What is preferred in front decides first. -/
theorem of_append {cs' ds' : List Color} (h : Preferred (cs ++ cs') (ds ++ ds'))
    (hlength : cs.length = ds.length) : Preferred cs ds := by
  induction cs generalizing ds with
  | nil => exact .inl (List.length_eq_zero_iff.mp hlength.symm).symm
  | cons c cs ih =>
    obtain _ | ⟨d, ds⟩ := ds
    · cases hlength
    · rw [List.cons_append, List.cons_append, cons_iff] at h
      rw [cons_iff]
      exact h.imp_right fun ⟨heq, hrest⟩ => ⟨heq, ih hrest (Nat.succ.inj hlength)⟩

end Preferred

/-- Only the colors of its wires matter for a constraint. -/
theorem Constraint.Holds.congr {c : Constraint} {f g : String → Color} (h : c.Holds f)
    (hsame : ∀ w ∈ c.wires, g w = f w) : c.Holds g := by
  cases c with
  | differ a b | agree a b =>
    simp only [wires, List.forall_mem_cons] at hsame
    simpa only [Holds, hsame.1, hsame.2.1] using h

namespace ColorClasses

variable {s : ColorClasses} {constraints : List Constraint} {call : ColorCall} {f g : String → Color}

/-! ### Wires -/

/-- A call meets the wires that it registers. -/
theorem Represents.knows_answer_iff (h : s.Represents constraints) (call : ColorCall) {w : String} :
    (s.answer call).2.Knows w ↔ s.Knows w ∨ w ∈ call.registers (s.answer call).1.isOk := by
  rw [← (h.settles call).valid.mem_order, h.order_answer, mem_enlist, h.valid.mem_order]

/-- A wire that has not been met has no color. -/
theorem Valid.get?_colors_eq_none (h : Valid s) {w : String} (hw : ¬ s.Knows w) :
    s.colors.get? w = none := by
  obtain ⟨f, -, hlist⟩ := exists_respects_colorList h
  rw [get?_colors h hlist, if_neg fun hmem => hw ((h.mem_order w).mp hmem.1)]

/-! ### Colors of the wires met before -/

/-- The colors that are listed give the channels those that they stand for. -/
theorem Represents.channel_of_colorList (h : s.Represents constraints) (hf : s.Respects f)
    (hlist : s.colorList = s.order.toList.map fun w => (w, f w)) (color : Color) :
    f color.channel = color := by
  have hred : f redChannel = .red := eq_red_of_head? hlist h.first
  cases color with
  | red => exact hred
  | green =>
    have hgreen := Color.ne_iff_eq_other.mp (h.channels_differ hf).symm
    rwa [hred] at hgreen

open Classical in
/-- A coloring of the wires that were met before, and one that satisfies the demands of the call,
make up a coloring if they give the channels the same colors. -/
theorem Represents.respects_combine (h : s.Represents constraints)
    (hok : (s.answer call).1 = .ok ())
    (hnew : ∀ c ∈ call.demands, ∀ w ∈ c.wires, s.Knows w → ∃ color : Color, w = color.channel)
    (hf : s.Respects f) (hg : (s.answer call).2.Respects g)
    (hchannels : ∀ color : Color, f color.channel = g color.channel) :
    (s.answer call).2.Respects fun w => if s.Knows w then f w else g w := by
  have hrespects := ((h.settles call).accepts hok).2.2
  refine (hrespects _).mpr ⟨(h.respects _).mpr fun c hc => ?_, fun c hc => ?_⟩
  · exact ((h.respects f).mp hf c hc).congr fun w hw => if_pos (h.knows c hc w hw)
  · refine (((hrespects g).mp hg).2 c hc).congr fun w hw => ?_
    split
    · next hknown =>
      obtain ⟨color, rfl⟩ := hnew c hc w hw hknown
      exact hchannels color
    · rfl

/-- A call that demands something of new wires and channels only leaves the colors of the wires that
were met before. -/
private theorem Represents.get?_colors_of_knows (h : s.Represents constraints)
    (hok : (s.answer call).1 = .ok ())
    (hnew : ∀ c ∈ call.demands, ∀ w ∈ c.wires, s.Knows w → ∃ color : Color, w = color.channel)
    {w : String} (hw : s.Knows w) : (s.answer call).2.colors.get? w = s.colors.get? w := by
  have h' := h.accepted call hok
  obtain ⟨f, hf, hlist⟩ := exists_respects_colorList h.valid
  obtain ⟨g, hg, hlist'⟩ := exists_respects_colorList h'.valid
  obtain ⟨more, horder⟩ := (h.settles call).order
  have hwires : ∀ v ∈ s.order.toList, s.Knows v := fun v hv => (h.valid.mem_order v).mp hv
  -- The new coloring is one for the old constraints, so the old one is preferred to it.
  have hold : Preferred (s.order.toList.map f) (s.order.toList.map g) := by
    have hpreferred := preferred_colorList h.valid ((((h.settles call).accepts hok).2.2 g).mp hg).1
    rwa [hlist, List.map_map] at hpreferred
  -- And the old one goes on with the colors of the new wires, so the new one is preferred to it.
  have hback : Preferred (s.order.toList.map g) (s.order.toList.map f) := by
    have hcombined := h.respects_combine hok hnew hf hg fun color => by
      rw [h.channel_of_colorList hf hlist, h'.channel_of_colorList hg hlist']
    have hpreferred := preferred_colorList h'.valid hcombined
    rw [hlist', List.map_map, ← horder, List.map_append, List.map_append] at hpreferred
    have hfront := hpreferred.of_append (by rw [List.length_map, List.length_map])
    rwa [List.map_congr_left fun v hv => if_pos (hwires v hv)] at hfront
  have hsame := hold.antisymm hback (by rw [List.length_map, List.length_map])
  have hcolor : f w = g w := List.map_inj_left.mp hsame w ((h.valid.mem_order w).mpr hw)
  have hmem := (h.valid.mem_order w).mpr hw
  have hmem' : w ∈ (s.answer call).2.order.toList := horder ▸ List.mem_append_left more hmem
  rw [get?_colors h.valid hlist, get?_colors h'.valid hlist', hcolor]
  simp only [hmem, hmem', true_and]

/-- A call that demands something of new wires and channels only leaves the colors of all wires that
it does not register. -/
theorem Represents.get?_colors_answer (h : s.Represents constraints)
    (hok : (s.answer call).1 = .ok ())
    (hnew : ∀ c ∈ call.demands, ∀ w ∈ c.wires, s.Knows w → ∃ color : Color, w = color.channel)
    {w : String} (hw : w ∉ call.registers true) :
    (s.answer call).2.colors.get? w = s.colors.get? w := by
  by_cases hknown : s.Knows w
  · exact h.get?_colors_of_knows hok hnew hknown
  · have hunknown : ¬ (s.answer call).2.Knows w := by
      rw [h.knows_answer_iff, hok]
      exact not_or.mpr ⟨hknown, hw⟩
    rw [h.valid.get?_colors_eq_none hknown,
      (h.settles call).valid.get?_colors_eq_none hunknown]

end ColorClasses

end CombinatorNet
