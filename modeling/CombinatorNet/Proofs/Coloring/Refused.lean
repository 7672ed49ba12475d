import CombinatorNet.Proofs.Coloring.Alike

/-!
# Constraints that are refused

A constraint on two wires makes two pairs of classes one by two joins. As opposite classes are
opposite to each other, the second join goes through whenever the first one does, so a constraint is
taken as a whole or not at all: when it is refused, the classes, their opposites, the order of the
wires and their colors are as they were. Only a new wire that is to differ from itself is met.

## Main definitions

* `ColorClasses.Unchanged` — a forest shows the same wires, classes and colors as another one
* `ColorClasses.MetOnly` — a forest shows one wire more, and nothing is said of it
* `ColorClasses.DifferHalfway`, `ColorClasses.AgreeHalfway` — a constraint stops between its joins

## Main results

* `ColorClasses.Valid.not_differHalfway`, `ColorClasses.Valid.not_agreeHalfway` — none does
* `ColorClasses.metOnly_differ_self` — a new wire that is to differ from itself
* `unchanged_of_refused` — what calls that are refused leave
-/

namespace CombinatorNet

namespace ColorClasses

variable {s t : ColorClasses} {a b v w : String} {f : String → Color}

/-- The wires of a forest are in one class, or in opposite ones, exactly if they are in another. -/
structure SameClasses (s t : ColorClasses) : Prop where
  classOf : ∀ v w, s.Knows v → s.Knows w → (t.classOf v = t.classOf w ↔ s.classOf v = s.classOf w)
  rival : ∀ v w, s.Knows v → s.Knows w → (t.classOf v = t.rival w ↔ s.classOf v = s.rival w)

/-- A forest has the wires, the classes and the colors of another one. -/
structure Unchanged (s t : ColorClasses) : Prop extends SameClasses s t where
  knows : ∀ w, t.Knows w ↔ s.Knows w
  order : t.order = s.order
  colors : t.colors = s.colors

/-- A forest has one wire more than another one, which is last in the order, in no class of another
wire or opposite to one, and red like any wire that is not constrained. -/
structure MetOnly (s : ColorClasses) (w : String) (t : ColorClasses) : Prop
    extends SameClasses s t where
  knows : ∀ v, t.Knows v ↔ v = w ∨ s.Knows v
  order : t.order = s.order.push w
  apart : ∀ v, s.Knows v → t.classOf v ≠ t.classOf w ∧ t.classOf v ≠ t.rival w
  colors : t.colors = s.colors.insert w .red

theorem Alike.sameClasses (h : Alike s t) : SameClasses s t :=
  ⟨fun _ _ hv hw => h.classOf_eq_iff hv hw, fun _ _ hv hw => h.classOf_eq_rival_iff hv hw⟩

theorem Alike.unchanged (h : Alike s t) : Unchanged s t :=
  ⟨h.sameClasses, fun _ => h.knows, h.order, h.colors⟩

/-! ### The two joins -/

/-- The second of two joins is refused when the first one has been made. -/
def HalfMerged (s : ColorClasses) (a b c d : Nat) : Prop :=
  ∃ top t, s.join a b = (some top, t) ∧ (t.join c d).1 = none

/-- Making two wires differ stops between the two joins. -/
def DifferHalfway (s : ColorClasses) (a b : String) : Prop :=
  (s.survey a b).first ≠ (s.survey a b).second ∧
    (s.survey a b).looked.HalfMerged (s.survey a b).first (s.survey a b).secondOpposed
      (s.survey a b).second (s.survey a b).firstOpposed

/-- Making two wires agree stops between the two joins. -/
def AgreeHalfway (s : ColorClasses) (a b : String) : Prop :=
  (s.survey a b).first ≠ (s.survey a b).second ∧
    (s.survey a b).looked.HalfMerged (s.survey a b).first (s.survey a b).second
      (s.survey a b).firstOpposed (s.survey a b).secondOpposed

theorem not_halfMerged_of_merge {fault : ColorFault} {a b c d : Nat}
    (hok : (s.merge fault a b c d).1 = .ok ()) : ¬ s.HalfMerged a b c d := by
  rintro ⟨top, t, hjoin, hrefused⟩
  simp only [merge, hjoin] at hok
  generalize t.join c d = second at hok hrefused
  obtain ⟨_, u⟩ := second
  cases hrefused
  cases hok

/-- Wires in different classes are made to differ by two joins that both go through. -/
theorem Valid.not_differHalfway (h : Valid s) (a b : String) : ¬ s.DifferHalfway a b := by
  rintro ⟨hne, hhalf⟩
  obtain ⟨hvalid, hfirst, hsecond⟩ := paired_survey h a b
  obtain ⟨_, _, hok, -⟩ :=
    hvalid.merge ⟨hfirst, hsecond.symm, hne⟩ (.inr ⟨rfl, rfl⟩) (.conflict a b)
  exact not_halfMerged_of_merge hok hhalf

/-- Wires in different classes are made to agree by two joins, of which the first one is refused if
the classes are opposite, and both go through if not. -/
theorem Valid.not_agreeHalfway (h : Valid s) (a b : String) : ¬ s.AgreeHalfway a b := by
  rintro ⟨hne, hhalf⟩
  obtain ⟨hvalid, hfirst, hsecond⟩ := paired_survey h a b
  by_cases hopposite : (s.survey a b).first = (s.survey a b).secondOpposed
  · obtain ⟨top, t, hjoin, -⟩ := hhalf
    rw [← hopposite] at hsecond
    have hrefused := hvalid.forest.join_opposite hne (hvalid.opposite_lt _ hfirst.lt)
      hsecond.opposed'
    rw [hjoin] at hrefused
    cases hrefused.1
  · obtain ⟨_, _, hok, -⟩ :=
      hvalid.merge ⟨hfirst, hsecond, hopposite⟩ (.inl ⟨rfl, rfl⟩) (.conflict a b)
    exact not_halfMerged_of_merge hok hhalf

/-! ### Wires that were not met -/

/-- Two wires that cannot be made to differ are the same wire, or were both met before. -/
theorem eq_or_knows_of_differ_refused (h : Valid s) (hno : (s.differ a b).1 ≠ .ok ()) :
    a = b ∨ s.Knows a ∧ s.Knows b := by
  by_cases hb : s.Knows b
  · exact .inr ⟨knows_of_differ_refused h hb hno, hb⟩
  · by_contra hcon
    have hne : a ≠ b := fun heq => hcon (.inl heq)
    obtain ⟨f, hf⟩ := h.exists_respects
    -- The second wire is free to have the color that the first one has not.
    refine (settles_differ h a b).refuses hno trivial _ (hf.update hb (f a).other) ?_
    rw [List.forall_mem_singleton, Constraint.Holds, Function.update_self,
      Function.update_of_ne hne]
    exact (Color.other_ne (f a)).symm

/-- Two wires that cannot be made to agree were both met before. -/
theorem knows_of_agree_refused (h : Valid s) (hno : (s.agree a b).1 ≠ .ok ()) :
    s.Knows a ∧ s.Knows b := by
  obtain ⟨f, hf⟩ := h.exists_respects
  have hrefuses : ∀ {f}, s.Respects f → f a ≠ f b := by
    intro f hf hagree
    exact (settles_agree h a b).refuses hno trivial f hf (List.forall_mem_singleton.mpr hagree)
  have hne : a ≠ b := fun heq => hrefuses hf (congrArg f heq)
  constructor
  · by_contra ha
    refine hrefuses (hf.update ha (f b)) ?_
    rw [Function.update_self, Function.update_of_ne hne.symm]
  · by_contra hb
    refine hrefuses (hf.update hb (f a)) ?_
    rw [Function.update_self, Function.update_of_ne hne]

theorem alike_of_differ_refused (h : Valid s) (ha : s.Knows a) (hb : s.Knows b)
    (hno : (s.differ a b).1 ≠ .ok ()) : Alike s (s.differ a b).2 := by
  have hsettles := settles_differ h a b
  refine ⟨h, hsettles.valid, ?_, hsettles.keeps hno⟩
  rw [order_differ h, met_of_mem ((h.mem_order a).mpr ha), met_of_mem ((h.mem_order b).mpr hb)]

theorem alike_of_agree_refused (h : Valid s) (hno : (s.agree a b).1 ≠ .ok ()) :
    Alike s (s.agree a b).2 := by
  obtain ⟨ha, hb⟩ := knows_of_agree_refused h hno
  have hsettles := settles_agree h a b
  refine ⟨h, hsettles.valid, ?_, hsettles.keeps hno⟩
  rw [order_agree h, met_of_mem ((h.mem_order a).mpr ha), met_of_mem ((h.mem_order b).mpr hb)]

/-! ### A new wire that is to differ from itself -/

theorem differ_self_refused (h : Valid s) (w : String) :
    (s.differ w w).1 = .error (.conflict w w) := by
  refine (fault_differ h w w).resolve_left fun hok => ?_
  -- No coloring would be left.
  obtain ⟨f, hf⟩ := (settles_differ h w w).valid.exists_respects
  have hholds := (((settles_differ h w w).accepts hok).2.2 f).mp hf
  exact hholds.2 _ (List.mem_singleton.mpr rfl) rfl

/-- The wire is met, and nothing else. -/
theorem alike_register_differ_self (h : Valid s) (w : String) :
    Alike (s.register w).2 (s.differ w w).2 := by
  have hsettles := settles_differ h w w
  have hno : (s.differ w w).1 ≠ .ok () := by simp [differ_self_refused h w]
  have hmem : w ∈ (met s.order w).toList := by
    rw [← order_register_eq h, (h.register w).mem_order]
    exact knows_register.mpr (.inl rfl)
  refine ⟨h.register w, hsettles.valid, ?_, fun f => ?_⟩
  · rw [order_differ h, met_of_mem hmem, order_register_eq h]
  · rw [hsettles.keeps hno, respects_register h]

/-- As long as its class is not decided, a new wire is colored last, and red. -/
theorem go_register (h : Valid s) (hw : ¬ s.Knows w) {ws : List String}
    (hws : ∀ v ∈ ws, s.Knows v) {decided : List (Nat × Color)}
    (hdecided : decided.lookup s.nodes.size = none) :
    colorList.go (s.register w).2 decided (ws ++ [w]) =
      colorList.go s decided ws ++ [(w, .red)] := by
  induction ws generalizing decided with
  | nil =>
    obtain ⟨hclass, -⟩ := classOf_register_of_not_knows hw
    rw [List.nil_append, go_of_undecided (by rw [hclass, hdecided])]
    rfl
  | cons v ws ih =>
    obtain ⟨hv, hws⟩ := List.forall_mem_cons.mp hws
    obtain ⟨hclass, hrival⟩ := classOf_register_of_knows (w := w) h hv
    rw [List.cons_append]
    cases hc : decided.lookup (s.classOf v) with
    | some c => rw [go_of_decided hc, go_of_decided (hclass.symm ▸ hc), ih hws hdecided]; rfl
    | none =>
      -- The classes decided next are old ones, so that of the new wire stays undecided.
      have hp := h.paired v hv
      rw [go_of_undecided hc, go_of_undecided (hclass.symm ▸ hc), hclass, hrival, ih hws]
      · rfl
      · rw [lookup_cons, if_neg hp.lt'.ne', lookup_cons, if_neg hp.lt.ne', hdecided]

/-- A new wire is red. -/
theorem colors_register (h : Valid s) (hw : ¬ s.Knows w) (hred : w ≠ redChannel)
    (hgreen : w ≠ greenChannel) : (s.register w).2.colors = s.colors.insert w .red := by
  have horder : (s.register w).2.order.toList = s.order.toList ++ [w] := by
    rw [order_register_eq h, met, if_neg fun hmem => hw ((h.mem_order w).mp hmem),
      Array.toList_push]
  have hlist : (s.register w).2.colorList = s.colorList ++ [(w, .red)] := by
    rw [colorList, horder]
    exact go_register h hw (fun v hv => (h.mem_order v).mp hv) rfl
  have hkept : [(w, Color.red)].filter (fun e => e.1 ≠ redChannel ∧ e.1 ≠ greenChannel) =
      [(w, .red)] := List.filter_cons_of_pos (by simp [hred, hgreen])
  rw [colors, hlist, List.filter_append, hkept, NameMap.ofList, List.foldl_append]
  rfl

/-- A new wire that is to differ from itself is refused, but met. -/
theorem metOnly_differ_self (h : Valid s) (hw : ¬ s.Knows w) (hred : w ≠ redChannel)
    (hgreen : w ≠ greenChannel) : MetOnly s w (s.differ w w).2 := by
  have halike := alike_register_differ_self h w
  have hknows : ∀ v, s.Knows v → (s.register w).2.Knows v := fun v hv =>
    knows_register.mpr (.inr hv)
  have hself : (s.register w).2.Knows w := knows_register.mpr (.inl rfl)
  refine ⟨⟨fun v v' hv hv' => ?_, fun v v' hv hv' => ?_⟩, fun v => ?_, ?_, fun v hv => ?_, ?_⟩
  · rw [halike.classOf_eq_iff (hknows v hv) (hknows v' hv'), (classOf_register_of_knows h hv).1,
      (classOf_register_of_knows h hv').1]
  · rw [halike.classOf_eq_rival_iff (hknows v hv) (hknows v' hv'),
      (classOf_register_of_knows h hv).1, (classOf_register_of_knows h hv').2]
  · rw [halike.knows, knows_register]
  · rw [halike.order, order_register_eq h, met, if_neg fun hmem => hw ((h.mem_order w).mp hmem)]
  · -- The classes of the new wire are those of its two new nodes.
    have hlt := h.classOf_lt hv
    obtain ⟨hclass, hrival⟩ := classOf_register_of_not_knows hw
    rw [ne_eq, ne_eq, halike.classOf_eq_iff (hknows v hv) hself,
      halike.classOf_eq_rival_iff (hknows v hv) hself, (classOf_register_of_knows h hv).1, hclass,
      hrival]
    omega
  · rw [halike.colors, colors_register h hw hred hgreen]

/-- A new wire is no channel, as both channels were met at first. -/
theorem Represents.metOnly_differ_self {constraints : List Constraint}
    (h : s.Represents constraints) (hw : ¬ s.Knows w) : MetOnly s w (s.differ w w).2 :=
  ColorClasses.metOnly_differ_self h.valid hw (fun heq => hw (heq ▸ h.knows_channel .red))
    fun heq => hw (heq ▸ h.knows_channel .green)

/-- Two wires that cannot be made to differ leave no trace, unless they are one new wire. -/
theorem Represents.differ_refused {constraints : List Constraint} (h : s.Represents constraints)
    (hno : (s.differ a b).1 ≠ .ok ()) :
    Unchanged s (s.differ a b).2 ∨ a = b ∧ ¬ s.Knows a ∧ MetOnly s a (s.differ a b).2 := by
  by_cases ha : s.Knows a
  · have hb : s.Knows b := (eq_or_knows_of_differ_refused h.valid hno).elim (· ▸ ha) (·.2)
    exact .inl (alike_of_differ_refused h.valid ha hb hno).unchanged
  · obtain rfl :=
      (eq_or_knows_of_differ_refused h.valid hno).resolve_right fun hboth => ha hboth.1
    exact .inr ⟨rfl, ha, h.metOnly_differ_self ha⟩

end ColorClasses

open ColorClasses

/-- The call makes a wire differ from itself. -/
def ColorCall.DiffersFromItself (call : ColorCall) (w : String) : Prop :=
  call = .differ w w ∨ call = .attach [w, w]

/-- After any calls, a call that is refused leaves the wires, their order, their classes and their
colors as they were, unless it makes a new wire differ from itself; then this wire is met and
unconstrained. No constraint on two wires stops between its two joins. -/
theorem unchanged_of_refused (calls : List ColorCall) :
    let s := (replay calls).1
    (∀ call, (s.answer call).1 ≠ .ok () → Unchanged s (s.answer call).2 ∨
      ∃ w, ¬ s.Knows w ∧ call.DiffersFromItself w ∧ MetOnly s w (s.answer call).2) ∧
    (∀ w, ¬ s.Knows w →
      (s.differ w w).1 = .error (.conflict w w) ∧ MetOnly s w (s.differ w w).2) ∧
    ∀ a b, ¬ s.DifferHalfway a b ∧ ¬ s.AgreeHalfway a b := by
  intro s
  have hs := represents_replay calls
  have h : Valid s := hs.valid
  refine ⟨fun call hno => ?_, fun w hw => ⟨differ_self_refused h w, hs.metOnly_differ_self hw⟩,
    fun a b => ⟨h.not_differHalfway a b, h.not_agreeHalfway a b⟩⟩
  cases call with
  | attach side =>
    match side, hno with
    | [], hno => exact absurd rfl hno
    | [w], hno => exact absurd rfl hno
    | [a, b], hno =>
      obtain hsame | ⟨rfl, ha, hmet⟩ := hs.differ_refused hno
      · exact .inl hsame
      · exact .inr ⟨a, ha, .inr rfl, hmet⟩
    | _ :: _ :: _ :: _, _ => exact .inl (Alike.refl h).unchanged
  | attachAll sides => exact .inl (alike_of_attachAll_refused h hno).unchanged
  | paint w color => exact .inl (alike_of_paint_refused h (hs.knows_channel _) hno).unchanged
  | differ a b =>
    obtain hsame | ⟨rfl, ha, hmet⟩ := hs.differ_refused hno
    · exact .inl hsame
    · exact .inr ⟨a, ha, .inl rfl, hmet⟩
  | agree a b => exact .inl (alike_of_agree_refused h hno).unchanged

/-- The lamp cannot agree with the key, and the new bell cannot differ from itself. -/
theorem unchanged_of_refused_bell :
    let s := (replay [.attach ["lamp", "key"], .differ "fan" "key"]).1
    ((s.agree "lamp" "key").1 ≠ .ok () ∧ Unchanged s (s.agree "lamp" "key").2) ∧
      ¬ s.Knows "bell" ∧ (s.differ "bell" "bell").1 = .error (.conflict "bell" "bell") ∧
        MetOnly s "bell" (s.differ "bell" "bell").2 := by
  intro s
  have hno : (s.agree "lamp" "key").1 ≠ .ok () := by decide
  have hnew : ¬ s.Knows "bell" := by
    unfold Knows
    decide
  obtain ⟨hrefused, hself, -⟩ := unchanged_of_refused [.attach ["lamp", "key"], .differ "fan" "key"]
  refine ⟨⟨hno, (hrefused (.agree "lamp" "key") hno).resolve_right ?_⟩, hnew, hself "bell" hnew⟩
  rintro ⟨w, -, heq | heq, -⟩ <;> cases heq

end CombinatorNet
