import CombinatorNet.Proofs.Coloring.Classes

/-!
# Taking a constraint

A constraint is accepted if some coloring of the forest satisfies it, and the colorings that are
left are those that do. Otherwise it is refused, and all colorings are left.

## Main definitions

* `Constraint` — two wires differ, or agree
* `Constraint.Holds` — a coloring satisfies a constraint
* `ColorClasses.Decides`, `ColorClasses.Settles` — how a forest answers to constraints
* `ColorClasses.survey` — what a constraint on two wires looks up before it joins classes

## Main results

* `ColorClasses.settles_differ`, `ColorClasses.settles_agree` — for two wires
* `ColorClasses.settles_attach`, `ColorClasses.decides_attachEach` — for the sides of a combinator
-/

namespace CombinatorNet

/-- A constraint on the colors of two wires. -/
inductive Constraint
  | differ (first second : String)
  | agree (first second : String)
deriving DecidableEq, Repr

namespace Constraint

/-- The wires that a constraint names. -/
def wires : Constraint → List String
  | differ a b => [a, b]
  | agree a b => [a, b]

/-- The coloring satisfies the constraint. -/
def Holds (f : String → Color) : Constraint → Prop
  | differ a b => f a ≠ f b
  | agree a b => f a = f b

end Constraint

/-- The constraints that wires on one side of a combinator are under. -/
def sideDemands : List String → List Constraint
  | [a, b] => [.differ a b]
  | _ => []

namespace ColorClasses

variable {s t u : ColorClasses} {a b : String}
  {r : Except ColorFault Unit × ColorClasses} {fits : Prop} {demands : List Constraint}

/-- The forest accepts constraints, given that they have the right form, exactly if one of its
colorings satisfies them; then just such colorings are left. -/
structure Decides (s : ColorClasses) (r : Except ColorFault Unit × ColorClasses) (fits : Prop)
    (demands : List Constraint) : Prop where
  valid : Valid r.2
  knows : ∀ w, s.Knows w → r.2.Knows w
  order : s.order.toList <+: r.2.order.toList
  accepts : r.1 = .ok () → fits ∧ (∀ c ∈ demands, ∀ w ∈ c.wires, r.2.Knows w) ∧
    ∀ f, r.2.Respects f ↔ s.Respects f ∧ ∀ c ∈ demands, c.Holds f
  refuses : r.1 ≠ .ok () → fits → ∀ f, s.Respects f → ¬ ∀ c ∈ demands, c.Holds f

/-- As `Decides`, and constraints that are refused change nothing. -/
structure Settles (s : ColorClasses) (r : Except ColorFault Unit × ColorClasses) (fits : Prop)
    (demands : List Constraint) : Prop extends Decides s r fits demands where
  keeps : r.1 ≠ .ok () → ∀ f, r.2.Respects f ↔ s.Respects f

/-! ### Meeting the wires of a constraint -/

/-- The forest in which two wires are met and their classes looked up. -/
def meet (s : ColorClasses) (a b : String) : ColorClasses :=
  let s := ((s.register a).2.register b).2
  let s := (s.find (s.nodeOf a)).2
  (s.find (s.nodeOf b)).2

/-- The forest in which the classes opposite to two classes are looked up too. -/
def look (s : ColorClasses) (ra rb : Nat) : ColorClasses :=
  let s := (s.find (s.node ra).opposite).2
  (s.find (s.node rb).opposite).2

/-- A forest with more wires, in which the same colorings are left. -/
private structure Extends (s t : ColorClasses) : Prop where
  valid : Valid t
  knows : ∀ w, s.Knows w → t.Knows w
  order : s.order.toList <+: t.order.toList
  respects : ∀ f, t.Respects f ↔ s.Respects f

private theorem Extends.refl (h : Valid s) : Extends s s :=
  ⟨h, fun _ hw => hw, List.prefix_refl _, fun _ => Iff.rfl⟩

private theorem Extends.trans (hst : Extends s t) (htu : Extends t u) : Extends s u :=
  ⟨htu.valid, fun w hw => htu.knows w (hst.knows w hw), hst.order.trans htu.order,
    fun f => (htu.respects f).trans (hst.respects f)⟩

private theorem extends_register (h : Valid s) (w : String) : Extends s (s.register w).2 :=
  ⟨h.register w, fun _ hv => knows_register.mpr (.inr hv), order_register w,
    fun _ => respects_register h w⟩

private theorem Shortened.extends (hst : Shortened s t) (h : Valid s) : Extends s t :=
  ⟨hst.valid h, fun _ hw => hst.knows.mpr hw, hst.order ▸ List.prefix_refl _,
    fun _ => hst.respects h⟩

private theorem find_nodeOf (h : Valid s) {w : String} (hw : s.Knows w) :
    Shortened s (s.find (s.nodeOf w)).2 :=
  h.forest.find (h.nodeOf_lt w hw)

private theorem extends_meet (h : Valid s) (a b : String) :
    Extends s (s.meet a b) ∧ (s.meet a b).Knows a ∧ (s.meet a b).Knows b := by
  -- Two wires are met and two ways shortened, none of which touches the colorings.
  have hmet := (extends_register h a).trans (extends_register (h.register a) b)
  have hb : ((s.register a).2.register b).2.Knows b := knows_register.mpr (.inl rfl)
  have ha : ((s.register a).2.register b).2.Knows a :=
    knows_register.mpr (.inr (knows_register.mpr (.inl rfl)))
  have hfirst := (find_nodeOf hmet.valid ha).extends hmet.valid
  have hsecond := (find_nodeOf hfirst.valid (hfirst.knows b hb)).extends hfirst.valid
  exact ⟨hmet.trans (hfirst.trans hsecond), hsecond.knows a (hfirst.knows a ha),
    hsecond.knows b (hfirst.knows b hb)⟩

private theorem shortened_look (h : Valid s) {ra rb : Nat} (ha : ra < s.nodes.size)
    (hb : rb < s.nodes.size) : Shortened s (s.look ra rb) := by
  have hfirst := h.forest.find (h.opposite_lt ra ha)
  refine hfirst.trans (hfirst.forest.find ?_)
  rw [hfirst.opposite, hfirst.size_nodes]
  exact h.opposite_lt rb hb

/-- The roots that both kinds of constraint look up first are those of the classes of the wires. -/
private theorem find_meet (h : Valid s) {ia ib : Nat} {s₁ s₂ : ColorClasses}
    (h₁ : s.register a = (ia, s₁)) (h₂ : s₁.register b = (ib, s₂)) :
    ∃ s₃, s₂.find ia = ((s.meet a b).classOf a, s₃) ∧
      s₃.find ib = ((s.meet a b).classOf b, s.meet a b) := by
  obtain rfl : (s.register a).1 = ia := congrArg Prod.fst h₁
  obtain rfl : (s.register a).2 = s₁ := congrArg Prod.snd h₁
  obtain rfl : ((s.register a).2.register b).1 = ib := congrArg Prod.fst h₂
  obtain rfl : ((s.register a).2.register b).2 = s₂ := congrArg Prod.snd h₂
  have hmet := (extends_register h a).trans (extends_register (h.register a) b)
  have hb : ((s.register a).2.register b).2.Knows b := knows_register.mpr (.inl rfl)
  have ha' : (s.register a).2.Knows a := knows_register.mpr (.inl rfl)
  have ha : ((s.register a).2.register b).2.Knows a := knows_register.mpr (.inr ha')
  -- Meeting the second wire leaves the first one its node.
  have hnode : (s.register a).1 = ((s.register a).2.register b).2.nodeOf a := by
    rw [nodeOf_register_of_knows ha', nodeOf_register]
  rw [hnode, ← nodeOf_register, meet]
  generalize ((s.register a).2.register b).2 = t at hmet ha hb
  have hfirst := find_nodeOf hmet.valid ha
  have hsecond := find_nodeOf (hfirst.valid hmet.valid) (hfirst.knows.mpr hb)
  have hsame : (t.find (t.nodeOf a)).2.nodeOf b = t.nodeOf b := by
    rw [nodeOf, hfirst.index, nodeOf]
  rw [hsame] at hsecond ⊢
  refine ⟨_, Prod.ext ?_ rfl, Prod.ext ?_ rfl⟩
  · exact ((hfirst.trans hsecond).classOf hmet.valid ha).symm
  · rw [hsecond.classOf (hfirst.valid hmet.valid) (hfirst.knows.mpr hb), classOf, hsame]
    rfl

private theorem find_look (h : Valid s) {ra rb : Nat} (ha : ra < s.nodes.size)
    (hb : rb < s.nodes.size) :
    ∃ s₁, s.find (s.node ra).opposite = (s.opposed ra, s₁) ∧
      s₁.find (s₁.node rb).opposite = (s.opposed rb, s.look ra rb) :=
  ⟨_, rfl, Prod.ext ((h.forest.find (h.opposite_lt ra ha)).opposed h hb) rfl⟩

/-- What a constraint on two wires finds out before it joins any classes. -/
structure Survey where
  /-- The forest in which the wires are met and their classes looked up. -/
  met : ColorClasses
  /-- The roots of the classes of the two wires. -/
  first : Nat
  second : Nat
  /-- The forest in which the opposite classes are looked up too. -/
  looked : ColorClasses
  /-- The roots of the classes opposite to those of the two wires. -/
  firstOpposed : Nat
  secondOpposed : Nat

/-- Meet two wires and look up their classes and the ones opposite to these. -/
def survey (s : ColorClasses) (a b : String) : Survey :=
  let (ia, s) := s.register a
  let (ib, s) := s.register b
  let (ra, s) := s.find ia
  let (rb, met) := s.find ib
  let (oa, s) := met.find (met.node ra).opposite
  let (ob, looked) := s.find (s.node rb).opposite
  ⟨met, ra, rb, looked, oa, ob⟩

/-- Two wires are made to differ by joining each class with the one opposite to the other. -/
theorem differ_eq_survey (s : ColorClasses) (a b : String) : s.differ a b =
    if (s.survey a b).first = (s.survey a b).second then
      (.error (.conflict a b), (s.survey a b).met)
    else (s.survey a b).looked.merge (.conflict a b)
      (s.survey a b).first (s.survey a b).secondOpposed
      (s.survey a b).second (s.survey a b).firstOpposed := by
  rcases h₁ : s.register a with ⟨ia, s₁⟩
  rcases h₂ : s₁.register b with ⟨ib, s₂⟩
  simp only [differ, survey, find, h₁, h₂]
  rfl

/-- Two wires are made to agree by joining their classes, and then the ones opposite to these. -/
theorem agree_eq_survey (s : ColorClasses) (a b : String) : s.agree a b =
    if (s.survey a b).first = (s.survey a b).second then (.ok (), (s.survey a b).met)
    else (s.survey a b).looked.merge (.conflict a b)
      (s.survey a b).first (s.survey a b).second
      (s.survey a b).firstOpposed (s.survey a b).secondOpposed := by
  rcases h₁ : s.register a with ⟨ia, s₁⟩
  rcases h₂ : s₁.register b with ⟨ib, s₂⟩
  simp only [agree, survey, find, h₁, h₂]
  rfl

/-- The roots found are those of the classes of the wires, and of the ones opposite to these. -/
theorem survey_eq (h : Valid s) (a b : String) : s.survey a b =
    { met := s.meet a b
      first := (s.meet a b).classOf a
      second := (s.meet a b).classOf b
      looked := (s.meet a b).look ((s.meet a b).classOf a) ((s.meet a b).classOf b)
      firstOpposed := (s.meet a b).rival a
      secondOpposed := (s.meet a b).rival b } := by
  obtain ⟨hmet, ha, hb⟩ := extends_meet h a b
  rcases h₁ : s.register a with ⟨ia, s₁⟩
  rcases h₂ : s₁.register b with ⟨ib, s₂⟩
  obtain ⟨s₃, h₃, h₄⟩ := find_meet h h₁ h₂
  obtain ⟨s₅, h₅, h₆⟩ := find_look hmet.valid (hmet.valid.classOf_lt ha) (hmet.valid.classOf_lt hb)
  simp only [survey, h₁, h₂, h₃, h₄, h₅, h₆]
  rfl

/-- When the joins begin, the forest is valid and the roots found are those of opposite classes. -/
theorem paired_survey (h : Valid s) (a b : String) : Valid (s.survey a b).looked ∧
    (s.survey a b).looked.Paired (s.survey a b).first (s.survey a b).firstOpposed ∧
    (s.survey a b).looked.Paired (s.survey a b).second (s.survey a b).secondOpposed := by
  obtain ⟨hmet, ha, hb⟩ := extends_meet h a b
  have hpa := hmet.valid.paired a ha
  have hpb := hmet.valid.paired b hb
  have hlook := shortened_look hmet.valid hpa.lt hpb.lt
  simp only [survey_eq h]
  exact ⟨hlook.valid hmet.valid, hlook.paired hmet.valid hpa, hlook.paired hmet.valid hpb⟩

theorem differ_eq (h : Valid s) (a b : String) : s.differ a b =
    if (s.meet a b).classOf a = (s.meet a b).classOf b then (.error (.conflict a b), s.meet a b)
    else ((s.meet a b).look ((s.meet a b).classOf a) ((s.meet a b).classOf b)).merge (.conflict a b)
      ((s.meet a b).classOf a) ((s.meet a b).rival b)
      ((s.meet a b).classOf b) ((s.meet a b).rival a) := by
  rw [differ_eq_survey, survey_eq h]

theorem agree_eq (h : Valid s) (a b : String) : s.agree a b =
    if (s.meet a b).classOf a = (s.meet a b).classOf b then (.ok (), s.meet a b)
    else ((s.meet a b).look ((s.meet a b).classOf a) ((s.meet a b).classOf b)).merge (.conflict a b)
      ((s.meet a b).classOf a) ((s.meet a b).classOf b)
      ((s.meet a b).rival a) ((s.meet a b).rival b) := by
  rw [agree_eq_survey, survey_eq h]

/-! ### Two wires -/

private theorem forall_mem_wires {a b : String} {P : String → Prop} (ha : P a) (hb : P b) :
    (∀ w ∈ (Constraint.differ a b).wires, P w) ∧ ∀ w ∈ (Constraint.agree a b).wires, P w := by
  simp [Constraint.wires, ha, hb]

private theorem settles_refused (hst : Extends s t) (e : ColorFault) {demand : Constraint}
    (hno : ∀ f, t.Respects f → ¬ demand.Holds f) : Settles s (.error e, t) True [demand] where
  valid := hst.valid
  knows := hst.knows
  order := hst.order
  accepts hok := by cases hok
  refuses _ _ f hf hall :=
    hno f ((hst.respects f).mpr hf) (hall demand (List.mem_singleton.mpr rfl))
  keeps _ := hst.respects

/-- Constraints that hold in every coloring are accepted as they are. -/
private theorem settles_granted (hst : Extends s t) (hfits : fits)
    (hknown : ∀ c ∈ demands, ∀ w ∈ c.wires, t.Knows w)
    (hholds : ∀ f, t.Respects f → ∀ c ∈ demands, c.Holds f) :
    Settles s (.ok (), t) fits demands where
  valid := hst.valid
  knows := hst.knows
  order := hst.order
  accepts _ := ⟨hfits, hknown, fun f =>
    ⟨fun hf => ⟨(hst.respects f).mp hf, hholds f hf⟩, fun hf => (hst.respects f).mpr hf.1⟩⟩
  refuses hno := absurd rfl hno
  keeps hno := absurd rfl hno

/-- A constraint that says of the colors of two pairs of classes that they are the same. -/
private theorem settles_merge (hst : Extends s t) {x y x' y' c d : Nat}
    (h : t.Mergeable x y x' y') (hcd : c = x' ∧ d = y' ∨ c = y' ∧ d = x') (fault : ColorFault)
    {demand : Constraint} (hwires : ∀ w ∈ demand.wires, t.Knows w)
    (hdemand : ∀ f g, t.Explains f g → (g x = g y ∧ g x' = g y' ↔ demand.Holds f)) :
    Settles s (t.merge fault x y c d) True [demand] := by
  -- The merge succeeds, and leaves the colorings whose class colors agree.
  obtain ⟨top, top', hok, hm⟩ := hst.valid.merge h hcd fault
  have hrespects : ∀ f, (t.merge fault x y c d).2.Respects f ↔ s.Respects f ∧ demand.Holds f := by
    intro f
    rw [hm.respects h hst.valid, ← hst.respects]
    constructor
    · rintro ⟨g, hg, hsame⟩
      exact ⟨⟨g, hg⟩, (hdemand f g hg).mp hsame⟩
    · rintro ⟨⟨g, hg⟩, hholds⟩
      exact ⟨g, hg, (hdemand f g hg).mpr hholds⟩
  refine ⟨⟨hm.valid h hst.valid, fun w hw => hm.knows.mpr (hst.knows w hw),
    hm.order.symm ▸ hst.order, fun _ => ⟨trivial, ?_, fun f => ?_⟩, fun hno => absurd hok hno⟩,
    fun hno => absurd hok hno⟩
  · intro demand' hmem w hw
    rw [List.mem_singleton.mp hmem] at hw
    exact hm.knows.mpr (hwires w hw)
  · rw [hrespects f, List.forall_mem_singleton]

/-- Two wires can be made to differ unless they are in one class. -/
theorem settles_differ (h : Valid s) (a b : String) :
    Settles s (s.differ a b) True [.differ a b] := by
  obtain ⟨hmet, ha, hb⟩ := extends_meet h a b
  rw [differ_eq h]
  generalize s.meet a b = t at hmet ha hb
  have hpa := hmet.valid.paired a ha
  have hpb := hmet.valid.paired b hb
  split
  · next heq =>
    refine settles_refused hmet _ fun f hf hdiffer => ?_
    obtain ⟨g, hg⟩ := hf
    exact hdiffer (by rw [(hg a ha).1, (hg b hb).1, heq])
  · next hne =>
    have hlook := shortened_look hmet.valid hpa.lt hpb.lt
    have hst := hmet.trans (hlook.extends hmet.valid)
    -- The class of the one wire and the class opposite to the other one become one.
    have hmergeable : (t.look (t.classOf a) (t.classOf b)).Mergeable (t.classOf a) (t.rival b)
        (t.rival a) (t.classOf b) :=
      ⟨hlook.paired hmet.valid hpa, (hlook.paired hmet.valid hpb).symm, hne⟩
    refine settles_merge hst hmergeable (.inr ⟨rfl, rfl⟩) _
      (forall_mem_wires (hlook.knows.mpr ha) (hlook.knows.mpr hb)).1 fun f g hg => ?_
    obtain ⟨hfa, hga⟩ := (hlook.explains hmet.valid).mp hg a ha
    obtain ⟨hfb, hgb⟩ := (hlook.explains hmet.valid).mp hg b hb
    rw [← hfa, ← hfb, hga, hgb, Constraint.Holds, Color.ne_iff_eq_other]
    constructor
    · exact fun hsame => hsame.1
    · intro hother
      exact ⟨hother, by rw [hother, Color.other_other]⟩

/-- The first join of a merge finds that the classes are opposite. -/
private theorem merge_opposite (h : Valid s) {x y c d : Nat} (hp : s.Paired x y)
    (fault : ColorFault) :
    ∃ t, s.merge fault x y c d = (.error fault, t) ∧ Shortened s t := by
  have hrefuse := h.forest.join_opposite hp.ne (h.opposite_lt x hp.lt) hp.opposed
  rw [ColorClasses.merge]
  generalize s.join x y = joined at hrefuse
  obtain ⟨_, t⟩ := joined
  obtain ⟨rfl, hshort⟩ := hrefuse
  exact ⟨t, rfl, hshort⟩

/-- Two wires can be made to agree unless they are in opposite classes. -/
theorem settles_agree (h : Valid s) (a b : String) :
    Settles s (s.agree a b) True [.agree a b] := by
  obtain ⟨hmet, ha, hb⟩ := extends_meet h a b
  rw [agree_eq h]
  generalize s.meet a b = t at hmet ha hb
  have hpa := hmet.valid.paired a ha
  have hpb := hmet.valid.paired b hb
  split
  · next heq =>
    refine settles_granted hmet trivial ?_ fun f hf => ?_
    · rw [List.forall_mem_singleton]
      exact (forall_mem_wires ha hb).2
    · obtain ⟨g, hg⟩ := hf
      rw [List.forall_mem_singleton, Constraint.Holds, (hg a ha).1, (hg b hb).1, heq]
  · have hlook := shortened_look hmet.valid hpa.lt hpb.lt
    have hst := hmet.trans (hlook.extends hmet.valid)
    have hpa' := hlook.paired hmet.valid hpa
    have hpb' := hlook.paired hmet.valid hpb
    by_cases hopp : t.classOf a = t.rival b
    · -- The classes are opposite, so no coloring makes the wires agree.
      have hpaired : (t.look (t.classOf a) (t.classOf b)).Paired (t.classOf a) (t.classOf b) :=
        hopp ▸ hpb'.symm
      obtain ⟨t', hmerge, hshort⟩ := merge_opposite hst.valid hpaired (.conflict a b)
      rw [hmerge]
      refine settles_refused (hst.trans (hshort.extends hst.valid)) _ fun f hf hagree => ?_
      obtain ⟨g, hg⟩ := (hlook.respects hmet.valid).mp ((hshort.respects hst.valid).mp hf)
      have hother : f a = (f b).other := by rw [(hg a ha).1, ← (hg b hb).2, hopp]
      exact Color.other_ne (f b) (hother.symm.trans hagree)
    · have hmergeable : (t.look (t.classOf a) (t.classOf b)).Mergeable (t.classOf a) (t.classOf b)
          (t.rival a) (t.rival b) := ⟨hpa', hpb', hopp⟩
      refine settles_merge hst hmergeable (.inl ⟨rfl, rfl⟩) _
        (forall_mem_wires (hlook.knows.mpr ha) (hlook.knows.mpr hb)).2 fun f g hg => ?_
      obtain ⟨hfa, hga⟩ := (hlook.explains hmet.valid).mp hg a ha
      obtain ⟨hfb, hgb⟩ := (hlook.explains hmet.valid).mp hg b hb
      rw [← hfa, ← hfb, hga, hgb, Constraint.Holds]
      exact ⟨fun hsame => hsame.1, fun hsame => ⟨hsame, by rw [hsame]⟩⟩

/-! ### Sides of a combinator -/

/-- A side carries at most two wires. -/
theorem settles_attach (h : Valid s) (side : List String) :
    Settles s (s.attach side) (side.length ≤ 2) (sideDemands side) := by
  match side with
  | [] => exact settles_granted (.refl h) (by simp) (by simp [sideDemands]) (by simp [sideDemands])
  | [w] =>
    exact settles_granted (extends_register h w) (by simp) (by simp [sideDemands])
      (by simp [sideDemands])
  | [a, b] =>
    have hdiffer := settles_differ h a b
    exact ⟨⟨hdiffer.valid, hdiffer.knows, hdiffer.order,
      fun hok => ⟨by simp, (hdiffer.accepts hok).2⟩, fun hno _ => hdiffer.refuses hno trivial⟩,
      hdiffer.keeps⟩
  | a :: b :: c :: rest =>
    refine ⟨⟨h, fun _ hw => hw, List.prefix_refl _, fun hok => ?_, fun _ hfits => ?_⟩,
      fun _ _ => Iff.rfl⟩
    · cases hok
    · simp at hfits

/-- Sides that are refused leave the sides before them attached. -/
theorem decides_attachEach (h : Valid s) (sides : List (List String)) :
    Decides s (s.attachEach sides) (∀ side ∈ sides, side.length ≤ 2)
      (sides.flatMap sideDemands) := by
  -- By induction on the sides: the constraints of the first one are settled before the others.
  induction sides generalizing s with
  | nil =>
    exact ⟨h, fun _ hw => hw, List.prefix_refl _, fun _ => ⟨by simp, by simp, by simp [attachEach]⟩,
      fun hno => absurd rfl hno⟩
  | cons side sides ih =>
    have hside := settles_attach h side
    rw [attachEach]
    rcases hattach : s.attach side with ⟨_ | _, t⟩
    · -- The first side is refused, and its demands are among those of all sides.
      rw [hattach] at hside
      refine ⟨hside.valid, hside.knows, hside.order, fun hok => ?_, fun hno hfits f hf hall => ?_⟩
      · cases hok
      · refine hside.refuses hno (hfits side List.mem_cons_self) f hf fun c hc => hall c ?_
        exact List.mem_flatMap.mpr ⟨side, List.mem_cons_self, hc⟩
    · -- The other sides are decided in a forest that has accepted the first one.
      rw [hattach] at hside
      have hsides := ih hside.valid
      obtain ⟨hfit, hknown, hrespects⟩ := hside.accepts rfl
      simp only at hrespects ⊢
      refine ⟨hsides.valid, fun w hw => hsides.knows w (hside.knows w hw),
        hside.order.trans hsides.order, fun hok => ?_, fun hno hfits f hf hall => ?_⟩
      · obtain ⟨hfits, hknown', hrespects'⟩ := hsides.accepts hok
        refine ⟨List.forall_mem_cons.mpr ⟨hfit, hfits⟩, ?_, fun f => ?_⟩
        · rw [List.flatMap_cons]
          refine List.forall_mem_append.mpr ⟨fun c hc w hw => ?_, hknown'⟩
          exact hsides.knows w (hknown c hc w hw)
        · rw [hrespects', hrespects, List.flatMap_cons, List.forall_mem_append, and_assoc]
      · rw [List.flatMap_cons, List.forall_mem_append] at hall
        exact hsides.refuses hno (List.forall_mem_cons.mp hfits).2 f
          ((hrespects f).mpr ⟨hf, hall.1⟩) hall.2

end ColorClasses

end CombinatorNet
