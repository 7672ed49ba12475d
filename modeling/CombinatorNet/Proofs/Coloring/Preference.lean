import CombinatorNet.Proofs.Coloring.Alike

/-!
# The preferred coloring

Of the colorings that satisfy all constraints accepted so far, the one that is shown prefers red for
each wire in turn, in the order in which the wires were registered. So it is the first one in the
lexicographic order, and depends on that order and on the constraints, but not on the calls that
they came from, nor on the classes and ways that these calls left behind.

## Main definitions

* `Preferred` — the lexicographic order of lists of colors, red first
* `registered` — the wires that some calls register, in order

## Main results

* `ColorClasses.preferred_go` — deciding wire by wire prefers red as far as possible
* `order_replay` — a forest knows the wires that are registered, in their order
* `colors_replay_preferred` — the colors are those of the first solution
-/

namespace CombinatorNet

/-! ### Preferring red -/

/-- The first list of colors is the second one, or is red and the second one green where they differ
for the first time. -/
def Preferred (cs ds : List Color) : Prop :=
  cs = ds ∨ List.Lex (fun c d => c = .red ∧ d = .green) cs ds

theorem Preferred.cons {cs ds : List Color} (h : Preferred cs ds) (c : Color) :
    Preferred (c :: cs) (c :: ds) :=
  h.imp (congrArg _) .cons

namespace ColorClasses

variable {s : ColorClasses} {w : String}

/-- Colors of the classes that go on with those decided before are not preferred to the colors that
wires get one by one. -/
theorem preferred_go {ws : List String} {decided : List (Nat × Color)} {g : Nat → Color}
    (hg : ∀ r c, decided.lookup r = some c → g r = c)
    (hrival : ∀ w ∈ ws, g (s.rival w) = (g (s.classOf w)).other) :
    Preferred ((colorList.go s decided ws).map Prod.snd) (ws.map fun w => g (s.classOf w)) := by
  -- By induction on the wires that are left, with what has been decided so far.
  induction ws generalizing decided with
  | nil => exact .inl rfl
  | cons w ws ih =>
    obtain ⟨hw, hrival⟩ := List.forall_mem_cons.mp hrival
    cases hc : decided.lookup (s.classOf w) with
    | some c =>
      rw [go_of_decided hc, List.map_cons, List.map_cons, hg _ _ hc]
      exact (ih hg hrival).cons c
    | none =>
      rw [go_of_undecided hc, List.map_cons, List.map_cons]
      cases hcolor : g (s.classOf w) with
      | green => exact .inr (.rel ⟨rfl, rfl⟩)
      | red =>
        -- Both have made the class red and its opposite class green, and go on from there.
        refine (ih (fun r c hr => ?_) hrival).cons .red
        rw [lookup_cons, lookup_cons] at hr
        split at hr
        · next heq => rw [heq, hw, hcolor, ← Option.some_inj.mp hr]; rfl
        · split at hr
          · next heq => rw [heq, hcolor, Option.some_inj.mp hr]
          · exact hg r c hr

/-- The colors in the list come first among those of all colorings that respect the forest. -/
theorem preferred_colorList (h : Valid s) {f : String → Color} (hf : s.Respects f) :
    Preferred (s.colorList.map Prod.snd) (s.order.toList.map f) := by
  obtain ⟨g, hg⟩ := hf
  have hknows : ∀ w ∈ s.order.toList, s.Knows w := fun w hw => (h.mem_order w).mp hw
  have hcolors : s.order.toList.map f = s.order.toList.map fun w => g (s.classOf w) :=
    List.map_congr_left fun w hw => (hg w (hknows w hw)).1
  rw [hcolors]
  refine preferred_go nofun fun w hw => ?_
  obtain ⟨hclass, hopposite⟩ := hg w (hknows w hw)
  rw [hopposite, hclass]

end ColorClasses

/-! ### Registration -/

/-- The wires registered so far, with some more behind them unless they are among them. -/
def enlist (order wires : List String) : List String :=
  wires.foldl (fun order w => if w ∈ order then order else order ++ [w]) order

/-- The wires that a call registers. It does so also when it is refused, unless it is a batch, or a
side with too many wires. -/
def ColorCall.registers (accepted : Bool) : ColorCall → List String
  | attach side => if side.length ≤ 2 then side else []
  | attachAll sides => if accepted then sides.flatten else []
  | paint wire _ => [wire]
  | differ first second | agree first second => [first, second]

/-- The wires registered after some calls to a forest, given those registered before. -/
def registeredFrom (s : ColorClasses) (order : List String) : List ColorCall → List String
  | [] => order
  | call :: calls =>
    let answer := s.answer call
    registeredFrom answer.2 (enlist order (call.registers answer.1.isOk)) calls

/-- The wires that some calls register, behind the two channels, in the order of registration. -/
def registered (calls : List ColorCall) : List String :=
  registeredFrom .start [redChannel, greenChannel] calls

theorem enlist_append (order us vs : List String) :
    enlist order (us ++ vs) = enlist (enlist order us) vs :=
  List.foldl_append

namespace ColorClasses

variable {s : ColorClasses} {constraints : List Constraint}

theorem toList_met (order : Array String) (w : String) :
    (met order w).toList = enlist order.toList [w] := by
  rw [met, enlist, List.foldl_cons, List.foldl_nil]
  split
  · rfl
  · exact Array.toList_push

theorem toList_met_met (order : Array String) (a b : String) :
    (met (met order a) b).toList = enlist order.toList [a, b] := by
  rw [toList_met, toList_met, ← enlist_append]
  rfl

theorem mem_enlist {order wires : List String} {w : String} :
    w ∈ enlist order wires ↔ w ∈ order ∨ w ∈ wires := by
  induction wires generalizing order with
  | nil => simp [enlist]
  | cons v wires ih =>
    rw [enlist, List.foldl_cons, ← enlist, ih]
    split
    · next hv =>
      rw [List.mem_cons]
      exact ⟨.imp_right .inr, fun h => h.elim .inl fun h => h.elim (fun h => .inl (h ▸ hv)) .inr⟩
    · rw [List.mem_append, List.mem_singleton, List.mem_cons, or_assoc]

theorem order_attach (h : Valid s) (side : List String) : (s.attach side).2.order.toList =
    enlist s.order.toList (if side.length ≤ 2 then side else []) := by
  match side with
  | [] => rfl
  | [w] => exact (congrArg _ (order_register_eq h w)).trans (toList_met _ _)
  | [a, b] => exact (congrArg _ (order_differ h a b)).trans (toList_met_met _ _ _)
  | _ :: _ :: _ :: _ =>
    rw [if_neg (by simp)]
    rfl

/-- Sides that are all accepted register their wires one after the other. -/
theorem order_attachEach (h : Valid s) {sides : List (List String)}
    (hok : (s.attachEach sides).1 = .ok ()) :
    (s.attachEach sides).2.order.toList = enlist s.order.toList sides.flatten := by
  induction sides generalizing s with
  | nil => rfl
  | cons side sides ih =>
    have hside := settles_attach h side
    have horder := order_attach h side
    rw [attachEach] at hok ⊢
    generalize s.attach side = answer at hok hside horder
    obtain ⟨_ | _, t⟩ := answer
    · cases hok
    · rw [if_pos (hside.accepts rfl).1] at horder
      rw [List.flatten_cons, enlist_append, ← horder]
      exact ih hside.valid hok

theorem order_attachAll (h : Valid s) (sides : List (List String)) :
    (s.attachAll sides).2.order.toList =
      enlist s.order.toList (if (s.attachAll sides).1.isOk then sides.flatten else []) := by
  by_cases hok : (s.attachAll sides).1 = .ok ()
  · rw [if_pos (by rw [hok]; rfl), snd_attachAll hok]
    exact order_attachEach (alike_startLog h).valid' ((fst_attachAll s sides).symm.trans hok)
  · have hno : (s.attachAll sides).1.isOk = false := by
      cases hanswer : (s.attachAll sides).1 with
      | error e => rfl
      | ok _ => exact absurd hanswer hok
    rw [(alike_of_attachAll_refused h hok).order, if_neg (by simp [hno])]
    rfl

/-- A call registers its wires behind those that were registered before. -/
theorem Represents.order_answer (h : s.Represents constraints) (call : ColorCall) :
    (s.answer call).2.order.toList =
      enlist s.order.toList (call.registers (s.answer call).1.isOk) := by
  cases call with
  | attach side => exact order_attach h.valid side
  | attachAll sides => exact order_attachAll h.valid sides
  | paint w color =>
    have hchannel : color.other.channel ∈ s.order.toList :=
      (h.valid.mem_order _).mpr (h.knows_channel _)
    rw [answer, paint, order_differ h.valid, met_of_mem, toList_met]
    · rfl
    · rw [toList_met]
      exact mem_enlist.mpr (.inl hchannel)
  | differ a b => exact (congrArg _ (order_differ h.valid a b)).trans (toList_met_met _ _ _)
  | agree a b => exact (congrArg _ (order_agree h.valid a b)).trans (toList_met_met _ _ _)

/-- The forest and the wires that are registered go together from call to call. -/
theorem Represents.order_foldl (h : s.Represents constraints) (calls : List ColorCall) :
    (calls.foldl replayCall (s, constraints)).1.order.toList =
      registeredFrom s s.order.toList calls := by
  induction calls generalizing s constraints with
  | nil => rfl
  | cons call calls ih =>
    have horder := h.order_answer call
    have haccepted := h.accepted call
    have hrefused := h.refused call
    rw [List.foldl_cons, registeredFrom, replayCall]
    generalize s.answer call = answer at horder haccepted hrefused ⊢
    obtain ⟨_ | _, t⟩ := answer
    · exact (ih (hrefused (by simp))).trans (congrArg (registeredFrom t · calls) horder)
    · exact (ih (haccepted rfl)).trans (congrArg (registeredFrom t · calls) horder)

end ColorClasses

open ColorClasses

/-- A forest knows the wires that its calls have registered, in the order of registration. -/
theorem order_replay (calls : List ColorCall) :
    (replay calls).1.order.toList = registered calls :=
  represents_start.order_foldl calls

/-- Forests with the same wires in the same order, and with the same constraints in any order and
any number, show the same colors. -/
theorem ColorClasses.Represents.colors_eq {s t : ColorClasses} {cs ds : List Constraint}
    (hs : s.Represents cs) (ht : t.Represents ds) (horder : t.order.toList = s.order.toList)
    (hmem : ∀ c, c ∈ ds ↔ c ∈ cs) : t.colors = s.colors := by
  refine Alike.colors ⟨hs.valid, ht.valid, Array.toList_inj.mp horder, fun f => ?_⟩
  rw [hs.respects, ht.respects]
  exact forall_congr' fun c => imp_congr_left (hmem c)

/-- Whatever calls were made, refused ones among them, the colors shown are those of a coloring that
makes the red channel red and satisfies all accepted constraints, and that comes first among these
colorings in the lexicographic order, red before green, of the wires as they were registered. A wire
has a color if it is registered and not a channel. So other calls that register the same wires in
the same order, and of which the same constraints are accepted, lead to the same colors. -/
theorem colors_replay_preferred (calls : List ColorCall) :
    (∃ f : String → Color, f redChannel = .red ∧ (∀ c ∈ (replay calls).2, c.Holds f) ∧
      (∀ w, (replay calls).1.colors.get? w =
        if w ∈ registered calls ∧ w ≠ redChannel ∧ w ≠ greenChannel then some (f w) else none) ∧
      ∀ g : String → Color, g redChannel = .red → (∀ c ∈ (replay calls).2, c.Holds g) →
        Preferred ((registered calls).map f) ((registered calls).map g)) ∧
    ∀ calls', registered calls' = registered calls →
      (∀ c, c ∈ (replay calls').2 ↔ c ∈ (replay calls).2) →
        (replay calls').1.colors = (replay calls).1.colors := by
  have h := represents_replay calls
  constructor
  · obtain ⟨f, hf, hlist⟩ := exists_respects_colorList h.valid
    have horder := order_replay calls
    have hcolors := get?_colors h.valid hlist
    simp only [horder] at hcolors
    refine ⟨f, eq_red_of_head? hlist h.first, (h.respects f).mp hf, hcolors, fun g _ hg => ?_⟩
    have hpreferred := preferred_colorList h.valid ((h.respects g).mpr hg)
    rwa [hlist, horder, List.map_map] at hpreferred
  · intro calls' horder hmem
    refine h.colors_eq (represents_replay calls') ?_ hmem
    rw [order_replay, order_replay, horder]

/-- Making the lamp differ from the fan is refused, and the other two constraints give the same
colors in either order. -/
theorem colors_replay_preferred_lamp_key_fan :
    let pairFirst : List ColorCall :=
      [.attachAll [["lamp", "key"], ["fan"]], .differ "key" "fan", .differ "lamp" "fan"]
    let pairLast : List ColorCall :=
      [.attach ["lamp"], .attach ["key"], .attach ["fan"], .differ "key" "fan",
        .attach ["lamp", "key"]]
    (replay pairLast).1.colors = (replay pairFirst).1.colors := by
  intro pairFirst pairLast
  have hwires : registered pairLast = registered pairFirst := by decide
  have hperm : (replay pairLast).2.Perm (replay pairFirst).2 := by decide
  exact (colors_replay_preferred pairFirst).2 pairLast hwires fun _ => hperm.mem_iff

end CombinatorNet
