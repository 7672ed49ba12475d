import CombinatorNet.Coloring.Constraints
import Mathlib.Data.Finset.Card

/-!
# The roots of the forest

Parents lead to a root, so looking up a root ends, and shortening a way changes no root. Putting one
root below another changes the roots of its own class only.

## Main definitions

* `ColorClasses.Forest` — parents lead downwards to roots
* `ColorClasses.Shortened`, `ColorClasses.Linked` — what looking up a root and joining two classes
  do

## Main results

* `ColorClasses.Forest.root_unique` — the equations of roots determine them
* `ColorClasses.Forest.find` — looking up a root changes no root, size or opposite
* `ColorClasses.Forest.join` — joining two classes gives them one root
* `ColorClasses.root_oppose` — making two classes opposite changes no root
-/

namespace CombinatorNet.ColorClasses

variable {s t u : ColorClasses} {x y r : Nat}

/-- Parents are nodes, and lead to a root: there is a depth that decreases towards it. -/
structure Forest (s : ColorClasses) : Prop where
  parent_lt : ∀ x < s.nodes.size, (s.node x).parent < s.nodes.size
  descends : ∃ depth : Nat → Nat, ∀ x < s.nodes.size, (s.node x).parent ≠ x →
    depth (s.node x).parent < depth x

/-! ### Nodes -/

@[simp] theorem node_save (s : ColorClasses) (i x : Nat) : (s.save i).node x = s.node x := by
  unfold save
  split <;> rfl

@[simp] theorem size_nodes_save (s : ColorClasses) (i : Nat) :
    (s.save i).nodes.size = s.nodes.size := by
  unfold save
  split <;> rfl

@[simp] theorem index_save (s : ColorClasses) (i : Nat) : (s.save i).index = s.index := by
  unfold save
  split <;> rfl

@[simp] theorem order_save (s : ColorClasses) (i : Nat) : (s.save i).order = s.order := by
  unfold save
  split <;> rfl

@[simp] theorem size_nodes_modifyNode (s : ColorClasses) (i : Nat) (f : ClassNode → ClassNode) :
    (s.modifyNode i f).nodes.size = s.nodes.size := Array.size_modify

@[simp] theorem index_modifyNode (s : ColorClasses) (i : Nat) (f : ClassNode → ClassNode) :
    (s.modifyNode i f).index = s.index := rfl

@[simp] theorem order_modifyNode (s : ColorClasses) (i : Nat) (f : ClassNode → ClassNode) :
    (s.modifyNode i f).order = s.order := rfl

theorem node_modifyNode {i : Nat} (hi : i < s.nodes.size) (f : ClassNode → ClassNode) (x : Nat) :
    (s.modifyNode i f).node x = if x = i then f (s.node x) else s.node x := by
  simp only [node, modifyNode, Array.getD_eq_getD_getElem?, Array.getElem?_modify]
  by_cases hx : x = i
  · subst hx
    simp [hi]
  · have hx' : i ≠ x := fun h => hx h.symm
    simp [hx, hx']

/-! ### Climbing to a root -/

theorem climb_of_isRoot (h : (s.node x).parent = x) (steps : Nat) : s.climb steps x = x := by
  cases steps with
  | zero => rfl
  | succ steps => rw [climb, if_pos h]

theorem root_of_isRoot (h : (s.node x).parent = x) : s.root x = x := climb_of_isRoot h _

theorem climb_lt (h : Forest s) (hx : x < s.nodes.size) (steps : Nat) :
    s.climb steps x < s.nodes.size := by
  induction steps generalizing x with
  | zero => exact hx
  | succ steps ih =>
    rw [climb]
    split
    · exact hx
    · exact ih (h.parent_lt x hx)

/-- A further step does not move a root that has been reached. -/
theorem climb_succ_of_isRoot {steps : Nat}
    (h : (s.node (s.climb steps x)).parent = s.climb steps x) :
    s.climb (steps + 1) x = s.climb steps x := by
  induction steps generalizing x with
  | zero => exact climb_of_isRoot h 1
  | succ steps ih =>
    rw [climb] at h ⊢
    conv_rhs => rw [climb]
    split at h
    · next hx => rw [if_pos hx, if_pos hx]
    · next hx =>
      rw [if_neg hx, if_neg hx]
      exact ih h

/-- As many steps as there are nodes of less depth are enough. -/
private theorem isRoot_climb {depth : Nat → Nat} (hlt : ∀ x < s.nodes.size,
    (s.node x).parent < s.nodes.size) (hdepth : ∀ x < s.nodes.size, (s.node x).parent ≠ x →
      depth (s.node x).parent < depth x) (steps : Nat) (hx : x < s.nodes.size)
    (hsteps : ((Finset.range s.nodes.size).filter fun y => depth y < depth x).card ≤ steps) :
    (s.node (s.climb steps x)).parent = s.climb steps x := by
  -- By induction on the steps: each of them leaves a node of less depth behind.
  induction steps generalizing x with
  | zero =>
    by_contra hroot
    have hmem : (s.node x).parent ∈ (Finset.range s.nodes.size).filter fun y => depth y < depth x :=
      Finset.mem_filter.mpr ⟨Finset.mem_range.mpr (hlt x hx), hdepth x hx hroot⟩
    rw [Finset.card_eq_zero.mp (Nat.le_zero.mp hsteps)] at hmem
    cases hmem
  | succ steps ih =>
    rw [climb]
    split
    · assumption
    · next hroot =>
      have hless := hdepth x hx hroot
      refine ih (hlt x hx) (Nat.le_of_lt_succ (Nat.lt_of_lt_of_le (Finset.card_lt_card ?_) hsteps))
      refine ⟨fun y hy => ?_, fun hsubset => ?_⟩
      · obtain ⟨hy, hyx⟩ := Finset.mem_filter.mp hy
        exact Finset.mem_filter.mpr ⟨hy, hyx.trans hless⟩
      · have hmem := hsubset (Finset.mem_filter.mpr ⟨Finset.mem_range.mpr (hlt x hx), hless⟩)
        exact Nat.lt_irrefl _ (Finset.mem_filter.mp hmem).2

/-- What a look-up yields is a root. -/
theorem Forest.isRoot_root (h : Forest s) (hx : x < s.nodes.size) :
    (s.node (s.root x)).parent = s.root x := by
  obtain ⟨depth, hdepth⟩ := h.descends
  refine isRoot_climb h.parent_lt hdepth _ hx ((Finset.card_filter_le _ _).trans ?_)
  rw [Finset.card_range]

theorem Forest.root_lt (h : Forest s) (hx : x < s.nodes.size) : s.root x < s.nodes.size :=
  climb_lt h hx _

theorem Forest.root_root (h : Forest s) (hx : x < s.nodes.size) : s.root (s.root x) = s.root x :=
  root_of_isRoot (h.isRoot_root hx)

theorem Forest.root_parent (h : Forest s) (hx : x < s.nodes.size) :
    s.root (s.node x).parent = s.root x := by
  by_cases hroot : (s.node x).parent = x
  · rw [hroot]
  · -- The way from the parent has a step less, and one more does not move its root.
    obtain ⟨steps, hsteps⟩ := Nat.exists_eq_succ_of_ne_zero (Nat.ne_zero_of_lt hx)
    have hclimb : s.root x = s.climb steps (s.node x).parent := by
      rw [root, hsteps, Nat.succ_eq_add_one, climb, if_neg hroot]
    have htop := h.isRoot_root hx
    rw [hclimb] at htop ⊢
    rw [root, hsteps]
    exact climb_succ_of_isRoot htop

/-- The roots are determined by being kept at roots and along parents. -/
theorem Forest.root_unique (h : Forest s) {f : Nat → Nat}
    (hroot : ∀ x < s.nodes.size, (s.node x).parent = x → f x = x)
    (hstep : ∀ x < s.nodes.size, (s.node x).parent ≠ x → f x = f (s.node x).parent)
    (hx : x < s.nodes.size) : s.root x = f x := by
  -- By induction on the depth, which is less at the parent.
  obtain ⟨depth, hdepth⟩ := h.descends
  induction hd : depth x using Nat.strong_induction_on generalizing x with
  | _ d ih =>
    by_cases hself : (s.node x).parent = x
    · rw [root_of_isRoot hself, hroot x hx hself]
    · rw [hstep x hx hself, ← h.root_parent hx]
      exact ih _ (hd ▸ hdepth x hx hself) (h.parent_lt x hx) rfl

theorem Forest.of_parent_eq (h : Forest s) (hsize : t.nodes.size = s.nodes.size)
    (hparent : ∀ x, (t.node x).parent = (s.node x).parent) : Forest t := by
  obtain ⟨depth, hdepth⟩ := h.descends
  refine ⟨fun x hx => ?_, depth, fun x hx hne => ?_⟩
  all_goals
    rw [hsize] at hx
    rw [hparent] at *
  · rw [hsize]
    exact h.parent_lt x hx
  · exact hdepth x hx hne

/-- Nodes with the same parents have the same roots. -/
theorem Forest.root_of_parent_eq (h : Forest s) (hsize : t.nodes.size = s.nodes.size)
    (hparent : ∀ x, (t.node x).parent = (s.node x).parent) (hx : x < s.nodes.size) :
    t.root x = s.root x := by
  refine (h.of_parent_eq hsize hparent).root_unique (fun y _ hroot => ?_) (fun y hy _ => ?_)
    (hsize.symm ▸ hx)
  · rw [hparent] at hroot
    exact root_of_isRoot hroot
  · rw [hparent]
    exact (h.root_parent (hsize ▸ hy)).symm

/-- No node is deeper than the nodes above it. -/
theorem Forest.depth_root_le (h : Forest s) {depth : Nat → Nat}
    (hdepth : ∀ x < s.nodes.size, (s.node x).parent ≠ x → depth (s.node x).parent < depth x)
    (hx : x < s.nodes.size) : depth (s.root x) ≤ depth x := by
  induction hd : depth x using Nat.strong_induction_on generalizing x with
  | _ d ih =>
    by_cases hself : (s.node x).parent = x
    · rw [root_of_isRoot hself, hd]
    · have hless := hdepth x hx hself
      rw [← h.root_parent hx]
      exact (ih _ (hd ▸ hless) (h.parent_lt x hx) rfl).trans (hd ▸ hless.le)

/-! ### Shortening a way -/

/-- A forest in which ways to roots are shorter than in another one, and nothing else is new. -/
structure Shortened (s t : ColorClasses) : Prop where
  forest : Forest t
  size_nodes : t.nodes.size = s.nodes.size
  root : ∀ x < s.nodes.size, t.root x = s.root x
  opposite : ∀ x, (t.node x).opposite = (s.node x).opposite
  index : t.index = s.index
  order : t.order = s.order

theorem Shortened.refl (h : Forest s) : Shortened s s :=
  ⟨h, rfl, fun _ _ => rfl, fun _ => rfl, rfl, rfl⟩

theorem Shortened.trans (hst : Shortened s t) (htu : Shortened t u) : Shortened s u where
  forest := htu.forest
  size_nodes := htu.size_nodes.trans hst.size_nodes
  root x hx := (htu.root x (hst.size_nodes ▸ hx)).trans (hst.root x hx)
  opposite x := (htu.opposite x).trans (hst.opposite x)
  index := htu.index.trans hst.index
  order := htu.order.trans hst.order

/-- Point a node at its root. -/
private def point (s : ColorClasses) (x : Nat) : ColorClasses :=
  (s.save x).modifyNode x fun n => { n with parent := s.root x }

private theorem node_point (hx : x < s.nodes.size) (y : Nat) : (s.point x).node y =
    if y = x then { s.node y with parent := s.root x } else s.node y := by
  rw [point, node_modifyNode (by rwa [size_nodes_save]), node_save]

private theorem size_nodes_point : (s.point x).nodes.size = s.nodes.size := by
  rw [point, size_nodes_modifyNode, size_nodes_save]

private theorem forest_point (h : Forest s) (hx : x < s.nodes.size)
    (hself : (s.node x).parent ≠ x) : Forest (s.point x) := by
  obtain ⟨depth, hdepth⟩ := h.descends
  -- The root lies below the old parent, so the old depths still decrease.
  have hbelow : depth (s.root x) < depth x := by
    have hle := h.depth_root_le hdepth (h.parent_lt x hx)
    rw [h.root_parent hx] at hle
    exact hle.trans_lt (hdepth x hx hself)
  refine ⟨fun y hy => ?_, depth, fun y hy hne => ?_⟩
  all_goals
    rw [size_nodes_point] at hy
    simp only [node_point hx, size_nodes_point] at *
    by_cases hyx : y = x
  · subst hyx
    simpa using h.root_lt hx
  · simpa [hyx] using h.parent_lt y hy
  · subst hyx
    simpa using hbelow
  · simp only [hyx, if_false] at hne ⊢
    exact hdepth y hy hne

/-- Pointing a node that is no root at its root shortens its way. -/
private theorem shortened_point (h : Forest s) (hx : x < s.nodes.size)
    (hself : (s.node x).parent ≠ x) : Shortened s (s.point x) := by
  have hforest := forest_point h hx hself
  refine ⟨hforest, size_nodes_point, fun y hy => ?_, fun y => ?_, by simp [point], by simp [point]⟩
  · -- The old roots still fit the parents.
    refine hforest.root_unique (fun z hz hroot => ?_) (fun z hz hne => ?_)
      (size_nodes_point.symm ▸ hy)
    all_goals
      rw [size_nodes_point] at hz
      simp only [node_point hx] at *
      by_cases hzx : z = x
    · subst hzx
      simpa using hroot
    · simp only [hzx, if_false] at hroot
      exact root_of_isRoot hroot
    · subst hzx
      simp only [if_true]
      exact (h.root_root hx).symm
    · simp only [hzx, if_false]
      exact (h.root_parent hz).symm
  · rw [node_point hx]
    split <;> rfl

/-- Each step of the way is pointed at the root, and the next one has the same root. -/
private theorem shortened_shorten (h : Forest s) (steps : Nat) (hx : x < s.nodes.size)
    (hr : r = s.root x) : Shortened s (s.shorten r steps x) := by
  induction steps generalizing s x with
  | zero => exact .refl h
  | succ steps ih =>
    simp only [shorten]
    split
    · exact .refl h
    · next hne =>
      have hself : (s.node x).parent ≠ x := fun hself =>
        hne (by rw [hr, root_of_isRoot hself, hself])
      have hpoint := shortened_point h hx hself
      rw [point, ← hr] at hpoint
      have hparent : (s.node x).parent < s.nodes.size := h.parent_lt x hx
      refine hpoint.trans (ih hpoint.forest (by simpa using hparent) ?_)
      rw [hpoint.root _ hparent, h.root_parent hx, hr]

/-- Looking up a root shortens ways only. -/
theorem Forest.find (h : Forest s) (hx : x < s.nodes.size) : Shortened s (s.find x).2 :=
  shortened_shorten h _ hx rfl

/-! ### Joining two classes -/

/-- A root after the roots `a` and `b` have become `top`. -/
def redirect (a b top r : Nat) : Nat := if r = a ∨ r = b then top else r

/-- A forest in which the classes of the roots `a` and `b` of another one have become one, whose
root is `top`. -/
structure Linked (s t : ColorClasses) (a b top : Nat) : Prop where
  forest : Forest t
  size_nodes : t.nodes.size = s.nodes.size
  top_eq : top = a ∨ top = b
  root : ∀ x < s.nodes.size, t.root x = redirect a b top (s.root x)
  opposite : ∀ x, (t.node x).opposite = (s.node x).opposite
  index : t.index = s.index
  order : t.order = s.order

theorem Linked.of_shortened {a b top : Nat} (hst : Shortened s t) (htu : Linked t u a b top) :
    Linked s u a b top where
  forest := htu.forest
  size_nodes := htu.size_nodes.trans hst.size_nodes
  top_eq := htu.top_eq
  root x hx := by rw [htu.root x (hst.size_nodes ▸ hx), hst.root x hx]
  opposite x := (htu.opposite x).trans (hst.opposite x)
  index := htu.index.trans hst.index
  order := htu.order.trans hst.order

theorem Linked.symm {a b top : Nat} (h : Linked s t a b top) : Linked s t b a top :=
  { h with
    top_eq := h.top_eq.symm
    root := fun x hx => by rw [h.root x hx]; simp only [redirect, or_comm] }

/-- Point a root at another one, which takes over its size. -/
private def link (s : ColorClasses) (small large : Nat) : ColorClasses :=
  let t := (s.save small).save large
  (t.modifyNode small fun n => { n with parent := large }).modifyNode large fun n =>
    { n with size := n.size + (t.node small).size }

private theorem node_link {small large : Nat} (hsmall : small < s.nodes.size)
    (hlarge : large < s.nodes.size) (y : Nat) :
    ((s.link small large).node y).parent = (if y = small then large else (s.node y).parent) ∧
      ((s.link small large).node y).opposite = (s.node y).opposite := by
  unfold link
  simp only
  rw [node_modifyNode (by simpa using hlarge), node_modifyNode (by simpa using hsmall)]
  simp only [node_save]
  by_cases hs : y = small
  · rw [if_pos hs]
    split <;> exact ⟨rfl, rfl⟩
  · rw [if_neg hs]
    split <;> exact ⟨rfl, rfl⟩

private theorem size_nodes_link {small large : Nat} :
    (s.link small large).nodes.size = s.nodes.size := by simp [link]

private theorem forest_link (h : Forest s) {small large : Nat} (hsmall : small < s.nodes.size)
    (hlarge : large < s.nodes.size) (hroot : s.root small = small) (hroot' : s.root large = large)
    (hne : small ≠ large) : Forest (s.link small large) := by
  have hparent := fun y => (node_link hsmall hlarge y).1
  obtain ⟨depth, hdepth⟩ := h.descends
  -- The whole class of `small` now hangs below `large`.
  refine ⟨fun y hy => ?_, fun y => depth y + if s.root y = small then depth large + 1 else 0,
    fun y hy hy' => ?_⟩
  all_goals rw [size_nodes_link] at hy
  · rw [hparent, size_nodes_link]
    split
    · exact hlarge
    · exact h.parent_lt y hy
  · rw [hparent] at hy' ⊢
    by_cases hys : y = small
    · subst hys
      simp only [if_true, hroot, hroot', if_neg hne.symm]
      omega
    · simp only [hys, if_false] at hy' ⊢
      rw [h.root_parent hy]
      exact Nat.add_lt_add_right (hdepth y hy hy') _

private theorem root_link (h : Forest s) {small large : Nat} (hsmall : small < s.nodes.size)
    (hlarge : large < s.nodes.size) (hroot : s.root small = small) (hroot' : s.root large = large)
    (hne : small ≠ large) (hx : x < s.nodes.size) :
    (s.link small large).root x = redirect small large large (s.root x) := by
  have hparent := fun y => (node_link hsmall hlarge y).1
  refine (forest_link h hsmall hlarge hroot hroot' hne).root_unique
    (f := fun y => redirect small large large (s.root y)) (fun y hy hy' => ?_)
    (fun y hy hy' => ?_) (size_nodes_link.symm ▸ hx)
  -- The new parents send `small` to `large`, and every other node where it was sent before.
  all_goals
    rw [size_nodes_link] at hy
    rw [hparent] at hy'
    show redirect small large large (s.root y) = _
    by_cases hys : y = small
  · subst hys
    rw [if_pos rfl] at hy'
    exact absurd hy'.symm hne
  · rw [if_neg hys] at hy'
    rw [root_of_isRoot hy', redirect]
    split
    · next hor => exact (hor.resolve_left hys).symm
    · rfl
  · subst hys
    rw [hparent, if_pos rfl, hroot, hroot', redirect, redirect, if_pos (.inl rfl),
      if_pos (.inr rfl)]
  · rw [hparent, if_neg hys, h.root_parent hy]

private theorem linked_link (h : Forest s) {small large : Nat} (hsmall : small < s.nodes.size)
    (hlarge : large < s.nodes.size) (hroot : s.root small = small) (hroot' : s.root large = large)
    (hne : small ≠ large) : Linked s (s.link small large) small large large :=
  ⟨forest_link h hsmall hlarge hroot hroot' hne, size_nodes_link, .inr rfl,
    fun _ hx => root_link h hsmall hlarge hroot hroot' hne hx,
    fun x => (node_link hsmall hlarge x).2, by simp [link], by simp [link]⟩

/-- Joining fails for opposite classes only. -/
theorem Forest.join (h : Forest s) {a b : Nat} (ha : a < s.nodes.size) (hb : b < s.nodes.size)
    (ha' : s.root a = a) (hb' : s.root b = b) (hopp : (s.node a).opposite < s.nodes.size)
    (hne : a = b ∨ s.root (s.node a).opposite ≠ b) :
    ∃ top, (s.join a b).1 = some top ∧ Linked s (s.join a b).2 a b top := by
  unfold ColorClasses.join
  by_cases hab : a = b
  · subst hab
    refine ⟨a, by simp, ?_⟩
    simp only [if_true]
    refine ⟨h, rfl, .inl rfl, fun x hx => ?_, fun _ => rfl, rfl, rfl⟩
    rw [redirect]
    split
    · next hor => exact hor.elim id id
    · rfl
  · -- Looking up the opposite class first changes no root, and tells that `b` is not in it.
    have hshort := h.find hopp
    have hother : (s.find (s.node a).opposite).1 ≠ b := hne.resolve_left hab
    generalize hfind : s.find (s.node a).opposite = found at hshort hother
    obtain ⟨other, t⟩ := found
    simp only [if_neg hab, if_neg hother]
    have hroot : ∀ c < s.nodes.size, s.root c = c → t.root c = c := fun c hc hc' =>
      (hshort.root c hc).trans hc'
    have ht : ∀ {c}, c < s.nodes.size → c < t.nodes.size := fun hc => hshort.size_nodes.symm ▸ hc
    -- Whichever class is the smaller one, the two roots become one of them.
    by_cases hless : (t.node a).size < (t.node b).size
    · simp only [if_pos hless]
      exact ⟨b, rfl, .of_shortened hshort
        (linked_link hshort.forest (ht ha) (ht hb) (hroot a ha ha') (hroot b hb hb') hab)⟩
    · simp only [if_neg hless]
      exact ⟨a, rfl, .of_shortened hshort
        (linked_link hshort.forest (ht hb) (ht ha) (hroot b hb hb') (hroot a ha ha')
          (Ne.symm hab)).symm⟩

/-- Joining opposite classes is refused, and joins nothing. -/
theorem Forest.join_opposite (h : Forest s) {a b : Nat} (hab : a ≠ b)
    (hopp : (s.node a).opposite < s.nodes.size) (hb : s.root (s.node a).opposite = b) :
    (s.join a b).1 = none ∧ Shortened s (s.join a b).2 := by
  have hother : (s.find (s.node a).opposite).1 = b := hb
  have hjoin : s.join a b = (none, (s.find (s.node a).opposite).2) := by
    simp only [ColorClasses.join, if_neg hab, if_pos hother]
  rw [hjoin]
  exact ⟨rfl, h.find hopp⟩

/-! ### Making two classes opposite -/

theorem node_oppose {a b : Nat} (ha : a < s.nodes.size) (hb : b < s.nodes.size) (x : Nat) :
    ((s.oppose a b).node x).parent = (s.node x).parent ∧ ((s.oppose a b).node x).opposite =
      if x = b then a else if x = a then b else (s.node x).opposite := by
  simp only [oppose]
  rw [node_modifyNode (by simpa using hb), node_modifyNode (by simpa using ha)]
  simp only [node_save]
  by_cases hxa : x = a
  · rw [if_pos hxa, if_pos hxa]
    split <;> exact ⟨rfl, rfl⟩
  · rw [if_neg hxa, if_neg hxa]
    split <;> exact ⟨rfl, rfl⟩

@[simp] theorem size_nodes_oppose (s : ColorClasses) (a b : Nat) :
    (s.oppose a b).nodes.size = s.nodes.size := by simp [oppose]

@[simp] theorem index_oppose (s : ColorClasses) (a b : Nat) : (s.oppose a b).index = s.index := by
  simp [oppose]

@[simp] theorem order_oppose (s : ColorClasses) (a b : Nat) : (s.oppose a b).order = s.order := by
  simp [oppose]

theorem Forest.oppose (h : Forest s) {a b : Nat} (ha : a < s.nodes.size) (hb : b < s.nodes.size) :
    Forest (s.oppose a b) :=
  h.of_parent_eq (size_nodes_oppose s a b) fun x => (node_oppose ha hb x).1

theorem root_oppose (h : Forest s) {a b : Nat} (ha : a < s.nodes.size) (hb : b < s.nodes.size)
    (hx : x < s.nodes.size) : (s.oppose a b).root x = s.root x :=
  h.root_of_parent_eq (size_nodes_oppose s a b) (fun y => (node_oppose ha hb y).1) hx

end CombinatorNet.ColorClasses
