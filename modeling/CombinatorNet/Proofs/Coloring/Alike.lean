import CombinatorNet.Proofs.Coloring.Decision

/-!
# Forests that cannot be told apart

What a forest answers, and the colors that it shows, depend on the order in which its wires were met
and on the colorings that it allows, but not on the shape of its trees. So a constraint that is
refused leaves no trace, although it may have met its wires and shortened ways before.

## Main definitions

* `ColorClasses.Alike` — two forests have the same wires and allow the same colorings

## Main results

* `ColorClasses.Valid.classOf_eq_iff`, `ColorClasses.Valid.classOf_eq_rival_iff` — the classes are
  determined by the colorings that are allowed
* `ColorClasses.Alike.colors` — forests that are alike show the same colors
* `ColorClasses.Alike.answer` — they answer alike, and are alike afterwards
* `ColorClasses.alike_of_attachAll_refused`, `ColorClasses.alike_of_paint_refused` — a call that is
  refused leaves a forest that is like the one before
-/

namespace CombinatorNet.ColorClasses

variable {s t u : ColorClasses} {v w : String} {f : String → Color} {g : Nat → Color}
  {sides : List (List String)}

/-! ### Classes and colorings -/

/-- A valid forest allows a coloring: of two opposite classes, the one with the smaller root can be
red. -/
theorem Valid.exists_respects (h : Valid s) : ∃ f, s.Respects f := by
  let g : Nat → Color := fun r => if r < s.opposed r then .red else .green
  refine ⟨fun w => g (s.classOf w), g, fun w hw => ⟨rfl, ?_⟩⟩
  have hp := h.paired w hw
  simp only [g, hp.opposed, hp.opposed']
  obtain hlt | hlt := Nat.lt_or_gt_of_ne hp.ne
  · rw [if_neg (Nat.lt_asymm hlt), if_pos hlt]
    rfl
  · rw [if_pos hlt, if_neg (Nat.lt_asymm hlt)]
    rfl

/-- The colors of a class and of the one opposite to it can be swapped. -/
private theorem Explains.swap (h : Valid s) (hg : s.Explains f g) (hw : s.Knows w) :
    s.Respects fun v =>
      if s.classOf v = s.classOf w ∨ s.classOf v = s.rival w then (f v).other else f v := by
  have hp := h.paired w hw
  refine ⟨fun r => if r = s.classOf w ∨ r = s.rival w then (g r).other else g r, fun v hv => ?_⟩
  have hq := h.paired v hv
  -- A class is one of the two exactly if its opposite is.
  have hiff : (s.rival v = s.classOf w ∨ s.rival v = s.rival w) ↔
      (s.classOf v = s.classOf w ∨ s.classOf v = s.rival w) := by
    rw [hq.symm.eq_iff hp, hq.symm.eq_iff hp.symm, or_comm]
  obtain ⟨hclass, hrival⟩ := hg v hv
  simp only [hiff, hrival, hclass, true_and]
  split <;> rfl

/-- Two wires are in one class if they have the same color whatever the coloring. -/
theorem Valid.classOf_eq_iff (h : Valid s) (hv : s.Knows v) (hw : s.Knows w) :
    s.classOf v = s.classOf w ↔ ∀ f, s.Respects f → f v = f w := by
  constructor
  · rintro heq f ⟨g, hg⟩
    rw [(hg v hv).1, (hg w hw).1, heq]
  · intro hsame
    by_contra hne
    obtain ⟨f, g, hg⟩ := h.exists_respects
    have hfvw : f v = f w := hsame f ⟨g, hg⟩
    -- The wires are not in opposite classes either, so swapping tells them apart.
    have hne' : s.classOf v ≠ s.rival w := fun heq => by
      have hother : f v = (f w).other := by rw [(hg v hv).1, heq, (hg w hw).2]
      exact Color.other_ne (f w) (hother.symm.trans hfvw)
    have hswap := hsame _ (hg.swap h hw)
    rw [if_neg (not_or.mpr ⟨hne, hne'⟩), if_pos (.inl rfl), hfvw] at hswap
    exact Color.other_ne (f w) hswap.symm

/-- Two wires are in opposite classes if they have different colors whatever the coloring. -/
theorem Valid.classOf_eq_rival_iff (h : Valid s) (hv : s.Knows v) (hw : s.Knows w) :
    s.classOf v = s.rival w ↔ ∀ f, s.Respects f → f v ≠ f w := by
  constructor
  · rintro heq f ⟨g, hg⟩
    rw [(hg v hv).1, heq, (hg w hw).2]
    exact Color.other_ne (f w)
  · intro hdiffer
    by_contra hne
    obtain ⟨f, g, hg⟩ := h.exists_respects
    have hfvw : f v = (f w).other := Color.ne_iff_eq_other.mp (hdiffer f ⟨g, hg⟩)
    have hne' : s.classOf v ≠ s.classOf w := fun heq => by
      rw [(hg v hv).1, heq, ← (hg w hw).1] at hfvw
      exact Color.other_ne (f w) hfvw.symm
    have hswap := hdiffer _ (hg.swap h hw)
    rw [if_neg (not_or.mpr ⟨hne', hne⟩), if_pos (.inl rfl), hfvw] at hswap
    exact hswap rfl

/-! ### Forests that are alike -/

/-- Two forests have met the same wires in the same order and allow the same colorings. -/
structure Alike (s t : ColorClasses) : Prop where
  valid : Valid s
  valid' : Valid t
  order : t.order = s.order
  respects : ∀ f, t.Respects f ↔ s.Respects f

theorem Alike.refl (h : Valid s) : Alike s s := ⟨h, h, rfl, fun _ => Iff.rfl⟩

theorem Alike.symm (h : Alike s t) : Alike t s :=
  ⟨h.valid', h.valid, h.order.symm, fun f => (h.respects f).symm⟩

theorem Alike.trans (h : Alike s t) (h' : Alike t u) : Alike s u :=
  ⟨h.valid, h'.valid', h'.order.trans h.order, fun f => (h'.respects f).trans (h.respects f)⟩

theorem Alike.knows (h : Alike s t) : t.Knows w ↔ s.Knows w := by
  rw [← h.valid'.mem_order, h.order, h.valid.mem_order]

theorem Alike.classOf_eq_iff (h : Alike s t) (hv : s.Knows v) (hw : s.Knows w) :
    t.classOf v = t.classOf w ↔ s.classOf v = s.classOf w := by
  rw [h.valid.classOf_eq_iff hv hw, h.valid'.classOf_eq_iff (h.knows.mpr hv) (h.knows.mpr hw)]
  exact forall_congr' fun f => imp_congr_left (h.respects f)

theorem Alike.classOf_eq_rival_iff (h : Alike s t) (hv : s.Knows v) (hw : s.Knows w) :
    t.classOf v = t.rival w ↔ s.classOf v = s.rival w := by
  rw [h.valid.classOf_eq_rival_iff hv hw,
    h.valid'.classOf_eq_rival_iff (h.knows.mpr hv) (h.knows.mpr hw)]
  exact forall_congr' fun f => imp_congr_left (h.respects f)

/-- Shorter ways and another log make no difference. -/
theorem Shortened.alike (hst : Shortened s t) (h : Valid s) : Alike s t :=
  ⟨h, hst.valid h, hst.order, fun _ => hst.respects h⟩

/-! ### The same colors -/

/-- As long as the same classes were decided before, wires get the same colors in the forests. -/
private theorem Alike.go (h : Alike s t) {ws : List String} (hws : ∀ w ∈ ws, s.Knows w)
    {ds dt : List (Nat × Color)}
    (hd : ∀ v, s.Knows v → dt.lookup (t.classOf v) = ds.lookup (s.classOf v)) :
    colorList.go t dt ws = colorList.go s ds ws := by
  -- By induction on the wires, as the classes decided next are the same ones again.
  induction ws generalizing ds dt with
  | nil => rfl
  | cons w ws ih =>
    obtain ⟨hw, hws⟩ := List.forall_mem_cons.mp hws
    cases hc : ds.lookup (s.classOf w) with
    | some c => rw [go_of_decided hc, go_of_decided ((hd w hw).trans hc), ih hws hd]
    | none =>
      rw [go_of_undecided hc, go_of_undecided ((hd w hw).trans hc), ih hws fun v hv => ?_]
      simp only [lookup_cons, h.classOf_eq_rival_iff hv hw, h.classOf_eq_iff hv hw, hd v hv]

/-- Forests that are alike show the same colors. -/
theorem Alike.colors (h : Alike s t) : t.colors = s.colors := by
  have hlist : t.colorList = s.colorList := by
    rw [colorList, colorList, h.order]
    exact h.go (fun w hw => (h.valid.mem_order w).mp hw) fun _ _ => rfl
  rw [ColorClasses.colors, hlist, ColorClasses.colors]

/-! ### The wires that a call meets -/

/-- The wires met so far, and one more. -/
def met (order : Array String) (w : String) : Array String :=
  if w ∈ order.toList then order else order.push w

theorem order_register_eq (h : Valid s) (w : String) :
    (s.register w).2.order = met s.order w := by
  by_cases hw : s.Knows w
  · rw [register_of_knows hw, met, if_pos ((h.mem_order w).mpr hw)]
  · have hnone : s.index.get? w = none := by simpa [Knows] using hw
    rw [register, hnone, met, if_neg fun hmem => hw ((h.mem_order w).mp hmem)]

theorem met_of_mem {order : Array String} (hw : w ∈ order.toList) : met order w = order :=
  if_pos hw

@[simp] theorem order_shorten (s : ColorClasses) (r steps x : Nat) :
    (s.shorten r steps x).order = s.order := by
  induction steps generalizing s x with
  | zero => rfl
  | succ steps ih =>
    rw [shorten]
    split
    · rfl
    · rw [ih, order_modifyNode, order_save]

@[simp] theorem order_find (s : ColorClasses) (x : Nat) : (s.find x).2.order = s.order :=
  order_shorten _ _ _ _

@[simp] theorem order_join (s : ColorClasses) (a b : Nat) : (s.join a b).2.order = s.order := by
  rw [join]
  split
  · rfl
  · simp only
    split
    · exact order_find _ _
    · simp

theorem order_merge (s : ColorClasses) (fault : ColorFault) (a b c d : Nat) :
    (s.merge fault a b c d).2.order = s.order := by
  have hfirst := order_join s a b
  rw [merge]
  generalize s.join a b = first at hfirst
  obtain ⟨_ | top, t⟩ := first
  · exact hfirst
  · have hsecond := order_join t c d
    simp only at hfirst ⊢
    generalize t.join c d = second at hsecond
    obtain ⟨_ | top', u⟩ := second
    · exact hsecond.trans hfirst
    · exact (order_oppose u top top').trans (hsecond.trans hfirst)

private theorem order_meet (h : Valid s) (a b : String) :
    (s.meet a b).order = met (met s.order a) b := by
  rw [meet, order_find, order_find, order_register_eq (h.register a), order_register_eq h]

@[simp] private theorem order_look (s : ColorClasses) (ra rb : Nat) :
    (s.look ra rb).order = s.order := by
  rw [look, order_find, order_find]

theorem order_differ (h : Valid s) (a b : String) :
    (s.differ a b).2.order = met (met s.order a) b := by
  rw [differ_eq h]
  split
  · exact order_meet h a b
  · rw [order_merge, order_look, order_meet h]

theorem order_agree (h : Valid s) (a b : String) :
    (s.agree a b).2.order = met (met s.order a) b := by
  rw [agree_eq h]
  split
  · exact order_meet h a b
  · rw [order_merge, order_look, order_meet h]

/-! ### The same answers -/

/-- A call is answered alike, and leaves forests that are alike. -/
def SameReply (p q : Except ColorFault Unit × ColorClasses) : Prop :=
  q.1 = p.1 ∧ Alike p.2 q.2

/-- Constraints that can be refused for one reason only are answered alike, as both forests have the
same solutions to choose from. -/
private theorem Alike.sameReply (h : Alike s t) {p q : Except ColorFault Unit × ColorClasses}
    {fits : Prop} {demands : List Constraint} (hp : Settles s p fits demands)
    (hq : Settles t q fits demands) (horder : q.2.order = p.2.order) {e : ColorFault}
    (hpe : p.1 = .ok () ∨ p.1 = .error e) (hqe : q.1 = .ok () ∨ q.1 = .error e) :
    SameReply p q := by
  -- Where one forest accepts, a coloring is left, and it shows that the other one does not refuse.
  have haccept : ∀ {s t : ColorClasses} {p q : Except ColorFault Unit × ColorClasses},
      Alike s t → Settles s p fits demands → Settles t q fits demands → p.1 = .ok () →
        q.1 = .ok () := by
    intro s t p q h hp hq hok
    obtain ⟨hfits, -, hrespects⟩ := hp.accepts hok
    obtain ⟨f, hf⟩ := hp.valid.exists_respects
    by_contra hno
    obtain ⟨hs, hholds⟩ := (hrespects f).mp hf
    exact hq.refuses hno hfits f ((h.respects f).mpr hs) hholds
  obtain hok | herr := hpe
  · have hok' := haccept h hp hq hok
    refine ⟨hok'.trans hok.symm, hp.valid, hq.valid, horder, fun f => ?_⟩
    rw [(hp.accepts hok).2.2, (hq.accepts hok').2.2, h.respects]
  · have hno : p.1 ≠ .ok () := by simp [herr]
    have hno' : q.1 ≠ .ok () := fun hok => hno (haccept h.symm hq hp hok)
    refine ⟨(hqe.resolve_left hno').trans herr.symm, hp.valid, hq.valid, horder, fun f => ?_⟩
    rw [hp.keeps hno, hq.keeps hno', h.respects]

private theorem fault_merge (s : ColorClasses) (fault : ColorFault) (a b c d : Nat) :
    (s.merge fault a b c d).1 = .ok () ∨ (s.merge fault a b c d).1 = .error fault := by
  rw [merge]
  split
  · exact .inr rfl
  · split
    · exact .inr rfl
    · exact .inl rfl

/-- Two wires that cannot be made to differ are named in the answer. -/
theorem fault_differ (h : Valid s) (a b : String) :
    (s.differ a b).1 = .ok () ∨ (s.differ a b).1 = .error (.conflict a b) := by
  rw [differ_eq h]
  split
  · exact .inr rfl
  · exact fault_merge _ _ _ _ _ _

/-- Two wires that cannot be made to agree are named in the answer. -/
theorem fault_agree (h : Valid s) (a b : String) :
    (s.agree a b).1 = .ok () ∨ (s.agree a b).1 = .error (.conflict a b) := by
  rw [agree_eq h]
  split
  · exact .inl rfl
  · exact fault_merge _ _ _ _ _ _

theorem Alike.differ (h : Alike s t) (a b : String) : SameReply (s.differ a b) (t.differ a b) :=
  h.sameReply (settles_differ h.valid a b) (settles_differ h.valid' a b)
    (by rw [order_differ h.valid, order_differ h.valid', h.order])
    (fault_differ h.valid a b) (fault_differ h.valid' a b)

theorem Alike.agree (h : Alike s t) (a b : String) : SameReply (s.agree a b) (t.agree a b) :=
  h.sameReply (settles_agree h.valid a b) (settles_agree h.valid' a b)
    (by rw [order_agree h.valid, order_agree h.valid', h.order])
    (fault_agree h.valid a b) (fault_agree h.valid' a b)

theorem Alike.register (h : Alike s t) (w : String) : Alike (s.register w).2 (t.register w).2 :=
  ⟨h.valid.register w, h.valid'.register w,
    by rw [order_register_eq h.valid, order_register_eq h.valid', h.order],
    fun f => by rw [respects_register h.valid, respects_register h.valid', h.respects]⟩

theorem Alike.attach (h : Alike s t) (side : List String) :
    SameReply (s.attach side) (t.attach side) := by
  match side with
  | [] => exact ⟨rfl, h⟩
  | [w] => exact ⟨rfl, h.register w⟩
  | [a, b] => exact h.differ a b
  | _ :: _ :: _ :: _ => exact ⟨rfl, h⟩

/-- Sides are attached alike, up to the first that is refused. -/
theorem Alike.attachEach (h : Alike s t) (sides : List (List String)) :
    SameReply (s.attachEach sides) (t.attachEach sides) := by
  induction sides generalizing s t with
  | nil => exact ⟨rfl, h⟩
  | cons side sides ih =>
    obtain ⟨hanswer, hafter⟩ := h.attach side
    rw [ColorClasses.attachEach, ColorClasses.attachEach]
    generalize s.attach side = p at hanswer hafter
    generalize t.attach side = q at hanswer hafter
    obtain ⟨x, s'⟩ := p
    obtain ⟨y, t'⟩ := q
    obtain rfl : y = x := hanswer
    cases y with
    | error e => exact ⟨rfl, hafter⟩
    | ok _ => exact ih hafter

theorem alike_startLog (h : Valid s) : Alike s s.startLog :=
  (shortened_of_log h.forest rfl rfl rfl : Shortened s s.startLog).alike h

theorem alike_dropLog (h : Valid s) : Alike s s.dropLog :=
  (shortened_of_log h.forest rfl rfl rfl : Shortened s s.dropLog).alike h

/-- A batch that is refused leaves a forest like the one before. -/
theorem alike_of_attachAll_refused (h : Valid s) {sides : List (List String)}
    (hno : (s.attachAll sides).1 ≠ .ok ()) : Alike s (s.attachAll sides).2 := by
  rw [attachAll_eq_dropLog s sides hno]
  exact alike_dropLog h

theorem fst_attachAll (s : ColorClasses) (sides : List (List String)) :
    (s.attachAll sides).1 = (s.startLog.attachEach sides).1 := by
  rw [attachAll]
  generalize s.startLog.attachEach sides = result
  obtain ⟨_ | _, t⟩ := result <;> rfl

theorem snd_attachAll (hok : (s.attachAll sides).1 = .ok ()) :
    (s.attachAll sides).2 = (s.startLog.attachEach sides).2.dropLog := by
  rw [attachAll] at hok ⊢
  generalize s.startLog.attachEach sides = result at hok
  obtain ⟨_ | _, t⟩ := result
  · cases hok
  · rfl

theorem Alike.attachAll (h : Alike s t) (sides : List (List String)) :
    SameReply (s.attachAll sides) (t.attachAll sides) := by
  have hlogged := (alike_startLog h.valid).symm.trans (h.trans (alike_startLog h.valid'))
  obtain ⟨hanswer, hafter⟩ := hlogged.attachEach sides
  have hsame : (t.attachAll sides).1 = (s.attachAll sides).1 := by
    rw [fst_attachAll, fst_attachAll, hanswer]
  refine ⟨hsame, ?_⟩
  by_cases hok : (s.attachAll sides).1 = .ok ()
  · rw [snd_attachAll hok, snd_attachAll (hsame.trans hok)]
    exact (alike_dropLog hafter.valid).symm.trans (hafter.trans (alike_dropLog hafter.valid'))
  · have hok' : (t.attachAll sides).1 ≠ .ok () := hsame ▸ hok
    exact (alike_of_attachAll_refused h.valid hok).symm.trans
      (h.trans (alike_of_attachAll_refused h.valid' hok'))

/-- Forests that are alike answer a call alike, and are alike afterwards. -/
theorem Alike.answer (h : Alike s t) (call : ColorCall) :
    SameReply (s.answer call) (t.answer call) := by
  cases call with
  | attach side => exact h.attach side
  | attachAll sides => exact h.attachAll sides
  | paint w color => exact h.differ w color.other.channel
  | differ a b => exact h.differ a b
  | agree a b => exact h.agree a b

/-! ### Colors that are refused -/

/-- A wire that the forest has not met can take any color. -/
theorem Respects.update (hf : s.Respects f) (hw : ¬ s.Knows w) (c : Color) :
    s.Respects (Function.update f w c) := by
  obtain ⟨g, hg⟩ := hf
  refine ⟨g, fun v hv => ?_⟩
  have hvw : v ≠ w := fun heq => hw (heq ▸ hv)
  rw [Function.update_of_ne hvw]
  exact hg v hv

/-- A wire that cannot be made to differ from a wire that was met was met itself. -/
theorem knows_of_differ_refused (h : Valid s) {a b : String} (hb : s.Knows b)
    (hno : (s.differ a b).1 ≠ .ok ()) : s.Knows a := by
  by_contra ha
  obtain ⟨f, hf⟩ := h.exists_respects
  have hne : b ≠ a := fun heq => ha (heq ▸ hb)
  -- Giving the new wire the color that it should have respects the forest as before.
  refine (settles_differ h a b).refuses hno trivial _ (hf.update ha (f b).other) ?_
  rw [List.forall_mem_singleton, Constraint.Holds, Function.update_self, Function.update_of_ne hne]
  exact Color.other_ne (f b)

/-- A color that is refused leaves a forest like the one before: the wire was met already, so no
more than ways were shortened. -/
theorem alike_of_paint_refused (h : Valid s) {w : String} {color : Color}
    (hchannel : s.Knows color.other.channel) (hno : (s.paint w color).1 ≠ .ok ()) :
    Alike s (s.paint w color).2 := by
  have hw := knows_of_differ_refused h hchannel hno
  have hsettles := settles_differ h w color.other.channel
  refine ⟨h, hsettles.valid, ?_, hsettles.keeps hno⟩
  rw [paint, order_differ h, met_of_mem ((h.mem_order w).mpr hw),
    met_of_mem ((h.mem_order _).mpr hchannel)]

end CombinatorNet.ColorClasses
