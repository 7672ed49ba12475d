import CombinatorNet.Proofs.Coloring.Batches
import CombinatorNet.Proofs.Loops

/-!
# The forest is well formed

Looking up a root goes on from parent to parent until there is no other one, and shortening the way
ends where it has come to the root. The size of a root is the number of wires in its class: a new
wire brings a class with one wire and one without any, and when two classes become one, so do their
numbers. Sizes below the roots are left as they were, and so are opposites.

## Main definitions

* `ColorClasses.ascend`, `ColorClasses.cutShort` — the rounds of looking up a root and of shortening
  the way to it
* `ColorClasses.population` — the number of wires in a class
* `ColorClasses.Weighed` — the sizes of the roots are these numbers
* `ColorClasses.WellFormed` — what holds of a forest after any calls

## Main results

* `ColorClasses.Forest.exists_ends_ascend`, `ColorClasses.Forest.exists_ends_cutShort` — both loops
  end
* `ColorClasses.Weighed.join`, `ColorClasses.Weighed.answer` — sizes are kept right
* `wellFormed_replay` — the forest is well formed after any calls
-/

namespace CombinatorNet

namespace ColorClasses

variable {s t : ColorClasses} {a b c d a' b' r x y : Nat} {w : String}

/-! ### Looking up a root ends -/

/-- One round of looking up a root: a node that is its own parent is the root. -/
def ascend (s : ColorClasses) (x : Nat) : Nat ⊕ Nat :=
  if (s.node x).parent = x then .inr x else .inl (s.node x).parent

/-- One round of shortening a way: a node whose parent is the root is left as it is, and any other
one is pointed at the root before it goes on with its old parent. -/
def cutShort (r : Nat) : ColorClasses × Nat → (ColorClasses × Nat) ⊕ ColorClasses
  | (s, x) =>
    if (s.node x).parent = r then .inr s
    else .inl ((s.save x).modifyNode x fun n => { n with parent := r }, (s.node x).parent)

theorem exists_ends_ascend_climb {steps : Nat}
    (h : (s.node (s.climb steps x)).parent = s.climb steps x) :
    ∃ rounds ≤ steps, Ends s.ascend x rounds (s.climb steps x) := by
  induction steps generalizing x with
  | zero => exact ⟨0, Nat.le_refl _, .stop (if_pos h)⟩
  | succ steps ih =>
    rw [climb] at h ⊢
    split
    · next hroot => exact ⟨0, Nat.zero_le _, .stop (if_pos hroot)⟩
    · next hroot =>
      rw [if_neg hroot] at h
      obtain ⟨rounds, hle, hends⟩ := ih h
      exact ⟨rounds + 1, Nat.succ_le_succ hle, .goOn (if_neg hroot) hends⟩

/-- Looking up a root takes no more rounds than there are nodes. -/
theorem Forest.exists_ends_ascend (h : Forest s) (hx : x < s.nodes.size) :
    ∃ rounds ≤ s.nodes.size, Ends s.ascend x rounds (s.root x) :=
  exists_ends_ascend_climb (h.isRoot_root hx)

theorem lt_of_parent_ne (h : (s.node x).parent ≠ x) : x < s.nodes.size := by
  by_contra hx
  have hnone : s.nodes[x]? = none := Array.getElem?_eq_none (Nat.le_of_not_lt hx)
  rw [node, Array.getD_eq_getD_getElem?, hnone] at h
  exact h rfl

/-- Pointing a node at a root makes no way to this root longer. -/
private theorem climb_modifyNode {steps : Nat} (hx : x < s.nodes.size)
    (hroot : (s.node r).parent = r) (hne : r ≠ x) (h : s.climb steps y = r) :
    ((s.save x).modifyNode x fun n => { n with parent := r }).climb steps y = r := by
  have hnode := fun z => node_modifyNode (s := s.save x) (i := x)
    (by rwa [size_nodes_save]) (fun n => { n with parent := r }) z
  have hstays : (((s.save x).modifyNode x fun n => { n with parent := r }).node r).parent = r := by
    rw [hnode, if_neg hne, node_save, hroot]
  induction steps generalizing y with
  | zero => exact h
  | succ steps ih =>
    rw [climb] at h ⊢
    by_cases hyx : y = x
    · -- The node that was changed is one step away from the root.
      rw [hnode, if_pos hyx]
      show (if r = y then y else climb _ steps r) = r
      rw [if_neg (hyx ▸ hne), climb_of_isRoot hstays]
    · rw [hnode, if_neg hyx, node_save]
      split at h
      · next hself => rw [if_pos hself, h]
      · next hself => rw [if_neg hself, ih h]

theorem exists_ends_cutShort_shorten {steps : Nat} (hroot : (s.node r).parent = r)
    (h : s.climb steps x = r) :
    ∃ rounds ≤ steps, Ends (cutShort r) (s, x) rounds (s.shorten r steps x) := by
  induction steps generalizing s x with
  | zero =>
    rw [climb] at h
    subst h
    exact ⟨0, Nat.le_refl _, .stop (if_pos hroot)⟩
  | succ steps ih =>
    simp only [shorten]
    split
    · next hparent => exact ⟨0, Nat.zero_le _, .stop (if_pos hparent)⟩
    · next hparent =>
      -- The node is no root, so the way from its parent is a step shorter, and stays that short.
      have hself : (s.node x).parent ≠ x := by
        intro hself
        rw [climb, if_pos hself] at h
        exact hparent (hself.trans h)
      have hne : r ≠ x := by
        rintro rfl
        exact hself hroot
      rw [climb, if_neg hself] at h
      have hx := lt_of_parent_ne hself
      have hroot' :
          (((s.save x).modifyNode x fun n => { n with parent := r }).node r).parent = r := by
        rw [node_modifyNode (by rwa [size_nodes_save]), if_neg hne, node_save, hroot]
      obtain ⟨rounds, hle, hends⟩ := ih hroot' (climb_modifyNode hx hroot hne h)
      exact ⟨rounds + 1, Nat.succ_le_succ hle, .goOn (if_neg hparent) hends⟩

/-- Shortening a way takes no more rounds than there are nodes. -/
theorem Forest.exists_ends_cutShort (h : Forest s) (hx : x < s.nodes.size) :
    ∃ rounds ≤ s.nodes.size, Ends (cutShort (s.root x)) (s, x) rounds (s.find x).2 :=
  exists_ends_cutShort_shorten (h.isRoot_root hx) rfl

/-! ### Steps that keep the sizes -/

private theorem size_modifyNode (s : ColorClasses) (i : Nat) (f : ClassNode → ClassNode)
    (hf : ∀ n, (f n).size = n.size) (x : Nat) : ((s.modifyNode i f).node x).size =
      (s.node x).size := by
  by_cases hi : i < s.nodes.size
  · rw [node_modifyNode hi]
    split
    · exact hf _
    · rfl
  · rw [modifyNode, node, node, Array.getD_eq_getD_getElem?, Array.getElem?_modify,
      Array.getD_eq_getD_getElem?]
    split
    · next heq =>
      subst heq
      rw [Array.getElem?_eq_none (Nat.le_of_not_lt hi)]
      rfl
    · rfl

private theorem size_pointed (s : ColorClasses) (i p x : Nat) :
    ((s.modifyNode i fun n => { n with parent := p }).node x).size = (s.node x).size :=
  size_modifyNode s i (fun n => { n with parent := p }) (fun _ => rfl) x

private theorem size_faced (s : ColorClasses) (i o x : Nat) :
    ((s.modifyNode i fun n => { n with opposite := o }).node x).size = (s.node x).size :=
  size_modifyNode s i (fun n => { n with opposite := o }) (fun _ => rfl) x

/-- Looking up a root changes no size. -/
theorem size_find (s : ColorClasses) (x y : Nat) :
    ((s.find x).2.node y).size = (s.node y).size := by
  have hshorten : ∀ (r steps : Nat) (s : ColorClasses) (x : Nat),
      ((s.shorten r steps x).node y).size = (s.node y).size := by
    intro r steps
    induction steps with
    | zero => exact fun _ _ => rfl
    | succ steps ih =>
      intro s x
      rw [shorten]
      split
      · rfl
      · rw [ih, size_pointed, node_save]
  exact hshorten _ _ _ _

theorem size_nodes_find (s : ColorClasses) (x : Nat) :
    (s.find x).2.nodes.size = s.nodes.size := by
  have hshorten : ∀ (r steps : Nat) (s : ColorClasses) (x : Nat),
      (s.shorten r steps x).nodes.size = s.nodes.size := by
    intro r steps
    induction steps with
    | zero => exact fun _ _ => rfl
    | succ steps ih =>
      intro s x
      rw [shorten]
      split
      · rfl
      · rw [ih, size_nodes_modifyNode, size_nodes_save]
  exact hshorten _ _ _ _

theorem size_oppose (s : ColorClasses) (a b x : Nat) :
    ((s.oppose a b).node x).size = (s.node x).size := by
  rw [oppose, size_faced, size_faced, node_save, node_save]

/-- A root that is joined with another one yields it as the root, or goes below it. -/
theorem eq_or_eq_of_join {top : Nat} (hjoin : (s.join a b).1 = some top) : top = a ∨ top = b := by
  rw [join] at hjoin
  split at hjoin
  · exact .inl (Option.some_inj.mp hjoin).symm
  · generalize s.find (s.node a).opposite = found at hjoin
    obtain ⟨other, t⟩ := found
    simp only at hjoin
    split at hjoin
    · cases hjoin
    · have htop := Option.some_inj.mp hjoin
      split at htop
      · exact .inr htop.symm
      · exact .inl htop.symm

/-- A root takes over the size of another one that is put below it. -/
private theorem size_grown {small large : Nat} (hlarge : large < s.nodes.size) (x : Nat) :
    (((((s.save small).save large).modifyNode small fun n =>
      { n with parent := large }).modifyNode large fun n =>
        { n with size := n.size + (((s.save small).save large).node small).size }).node x).size =
      if x = large then (s.node large).size + (s.node small).size else (s.node x).size := by
  rw [node_modifyNode (by simpa using hlarge), node_save, node_save]
  split
  · next heq =>
    subst heq
    show ((modifyNode _ _ _).node x).size + _ = _
    rw [size_pointed, node_save, node_save]
  · rw [size_pointed, node_save, node_save]

theorem size_nodes_join (s : ColorClasses) (a b : Nat) :
    (s.join a b).2.nodes.size = s.nodes.size := by
  have hfind := size_nodes_find s (s.node a).opposite
  rw [join]
  split
  · rfl
  · generalize s.find (s.node a).opposite = found at hfind
    obtain ⟨other, t⟩ := found
    simp only at hfind ⊢
    split
    · exact hfind
    · simp only [size_nodes_modifyNode, size_nodes_save, hfind]

/-- Joining two roots adds the size of the one that goes below to that of the other one. -/
theorem size_join {top : Nat} (ha : a < s.nodes.size) (hb : b < s.nodes.size) (hab : a ≠ b)
    (hjoin : (s.join a b).1 = some top) (x : Nat) : ((s.join a b).2.node x).size =
      if x = top then (s.node a).size + (s.node b).size else (s.node x).size := by
  have hsize := size_find s (s.node a).opposite
  rw [← size_nodes_find s (s.node a).opposite] at ha hb
  rw [join, if_neg hab] at hjoin ⊢
  generalize s.find (s.node a).opposite = found at hjoin hsize ha hb ⊢
  obtain ⟨other, t⟩ := found
  simp only at hjoin hsize ha hb ⊢
  split at hjoin
  · cases hjoin
  · next hother =>
    rw [if_neg hother]
    by_cases hless : (t.node a).size < (t.node b).size
    · simp only [if_pos hless, Option.some.injEq] at hjoin ⊢
      subst hjoin
      rw [size_grown hb, hsize, hsize, hsize, Nat.add_comm]
    · simp only [if_neg hless, Option.some.injEq] at hjoin ⊢
      subst hjoin
      rw [size_grown ha, hsize, hsize, hsize]

/-! ### The number of wires in a class -/

/-- The number of wires in the class of a root. -/
def population (s : ColorClasses) (r : Nat) : Nat :=
  s.order.toList.countP fun w => s.classOf w = r

/-- The size of each root is the number of wires in its class. -/
structure Weighed (s : ColorClasses) : Prop where
  forest : Forest s
  nodeOf_lt : ∀ w ∈ s.order.toList, s.nodeOf w < s.nodes.size
  size_eq : ∀ r < s.nodes.size, s.root r = r → (s.node r).size = s.population r

/-- Forests with the same wires, roots and sizes are weighed alike. -/
theorem Weighed.congr (h : Weighed s) (hforest : Forest t)
    (hnodes : t.nodes.size = s.nodes.size) (hroot : ∀ x < s.nodes.size, t.root x = s.root x)
    (hsize : ∀ x, (t.node x).size = (s.node x).size) (hindex : t.index = s.index)
    (horder : t.order = s.order) : Weighed t := by
  have hnodeOf : ∀ w, t.nodeOf w = s.nodeOf w := fun w => by rw [nodeOf, hindex, nodeOf]
  refine ⟨hforest, fun w hw => ?_, fun r hr hr' => ?_⟩
  · rw [hnodeOf, hnodes]
    exact h.nodeOf_lt w (horder ▸ hw)
  · rw [hnodes] at hr
    rw [hsize, h.size_eq r hr ((hroot r hr).symm.trans hr'), population, population, horder]
    refine List.countP_congr fun w hw => ?_
    rw [classOf, classOf, hnodeOf, hroot _ (h.nodeOf_lt w hw)]

theorem Weighed.of_shortened (h : Weighed s) (hst : Shortened s t)
    (hsize : ∀ x, (t.node x).size = (s.node x).size) : Weighed t :=
  h.congr hst.forest hst.size_nodes hst.root hsize hst.index hst.order

/-- Looking up a root keeps the sizes right; beyond the nodes it does nothing. -/
theorem Weighed.find (h : Weighed s) (x : Nat) : Weighed (s.find x).2 := by
  by_cases hx : x < s.nodes.size
  · exact h.of_shortened (h.forest.find hx) (size_find s x)
  · have hparent : (s.node x).parent = x := by
      by_contra hne
      exact hx (lt_of_parent_ne hne)
    have hsame : (s.find x).2 = s := by
      rw [ColorClasses.find, root_of_isRoot hparent]
      cases s.nodes.size with
      | zero => rfl
      | succ steps => simp only [shorten, hparent, if_true]
    rwa [hsame]

theorem Weighed.oppose (h : Weighed s) (ha : a < s.nodes.size) (hb : b < s.nodes.size) :
    Weighed (s.oppose a b) :=
  h.congr (h.forest.oppose ha hb) (size_nodes_oppose s a b)
    (fun _ hx => root_oppose h.forest ha hb hx) (size_oppose s a b) (index_oppose s a b)
    (order_oppose s a b)

/-- A new wire is the only one in its class, and there is none in the opposite class. -/
theorem Weighed.register (h : Weighed s) (hv : Valid s) (w : String) :
    Weighed (s.register w).2 := by
  by_cases hw : s.Knows w
  · rwa [register_of_knows hw]
  have hvalid := hv.register w
  have hsize := size_nodes_register_of_not_knows hw
  have hnode := node_register_of_not_knows hw
  have horder : (s.register w).2.order.toList = s.order.toList ++ [w] := by
    rw [order_register_eq hv, met, if_neg fun hmem => hw ((hv.mem_order w).mp hmem),
      Array.toList_push]
  obtain ⟨hclass, -⟩ := classOf_register_of_not_knows hw
  refine ⟨hvalid.forest, fun v hv' => hvalid.nodeOf_lt v ((hvalid.mem_order v).mp hv'),
    fun r hr hr' => ?_⟩
  -- The old wires keep their classes, which are not the new ones.
  have hold : ∀ r, s.order.toList.countP (fun v => (s.register w).2.classOf v = r) =
      s.population r := fun r => List.countP_congr fun v hv' => by
    rw [(classOf_register_of_knows hv ((hv.mem_order v).mp hv')).1]
  have hnone : ∀ r, s.nodes.size ≤ r → s.population r = 0 := fun r hr =>
    List.countP_eq_zero.mpr fun v hv' hcon => by
      have hlt := hv.classOf_lt ((hv.mem_order v).mp hv')
      have heq : s.classOf v = r := of_decide_eq_true hcon
      omega
  rw [population, horder, List.countP_append, hold, List.countP_singleton, hclass, hnode]
  by_cases hnew : r = s.nodes.size
  · subst hnew
    simp [hnone _ (Nat.le_refl _)]
  · by_cases hnew' : r = s.nodes.size + 1
    · subst hnew'
      simp [hnone _ (Nat.le_succ _)]
    · have hlt : r < s.nodes.size := by omega
      have hparent := hvalid.forest.isRoot_root hr
      rw [hr', hnode, if_neg hnew, if_neg hnew'] at hparent
      have hne : ¬ s.nodes.size = r := fun heq => hnew heq.symm
      rw [if_neg hnew, if_neg hnew', h.size_eq r hlt (root_of_isRoot hparent)]
      simp [hne]

/-! ### Joining classes -/

private theorem countP_or {α : Type} {P Q : α → Prop} [DecidablePred P] [DecidablePred Q]
    (hapart : ∀ x, P x → ¬ Q x) (xs : List α) :
    xs.countP (fun x => P x ∨ Q x) = xs.countP (fun x => P x) + xs.countP (fun x => Q x) := by
  induction xs with
  | nil => rfl
  | cons x xs ih =>
    rw [List.countP_cons, List.countP_cons, List.countP_cons, ih]
    by_cases hP : P x
    · simp [hP, hapart x hP]
      omega
    · simp [hP]
      omega

/-- A root is the top of a joined class if it was one of the two roots of it. -/
theorem redirect_eq_top_iff {top : Nat} (htop : top = a ∨ top = b) :
    redirect a b top r = top ↔ r = a ∨ r = b := by
  rw [redirect]
  split
  · next hr => exact iff_of_true rfl hr
  · next hr =>
    refine iff_of_false ?_ hr
    rintro rfl
    exact hr htop

/-- A root that is not the top of a joined class is the root of the class it was the root of. -/
theorem redirect_eq_iff_of_ne {top : Nat} (hr : x ≠ top) (hx : ¬ (x = a ∨ x = b)) :
    redirect a b top r = x ↔ r = x := by
  rw [redirect]
  split
  · next hor => exact iff_of_false (fun h => hr h.symm) fun h => hx (h ▸ hor)
  · exact Iff.rfl

/-- The wires of joined classes are those of the one and those of the other. -/
theorem Linked.population {top : Nat} (h : Linked s t a b top) (hab : a ≠ b)
    (hlt : ∀ w ∈ s.order.toList, s.nodeOf w < s.nodes.size) :
    t.population top = s.population a + s.population b ∧
      ∀ r, r ≠ top → ¬ (r = a ∨ r = b) → t.population r = s.population r := by
  have hclass : ∀ w ∈ s.order.toList, t.classOf w = redirect a b top (s.classOf w) := by
    intro w hw
    rw [classOf, nodeOf, h.index, classOf]
    exact h.root _ (hlt w hw)
  rw [ColorClasses.population, h.order]
  constructor
  · rw [ColorClasses.population, ColorClasses.population,
      ← countP_or fun w ha hb => hab (ha.symm.trans hb)]
    refine List.countP_congr fun w hw => ?_
    rw [hclass w hw, decide_eq_true_eq, decide_eq_true_eq, redirect_eq_top_iff h.top_eq]
  · intro r hr hor
    rw [ColorClasses.population, h.order, ColorClasses.population]
    refine List.countP_congr fun w hw => ?_
    rw [hclass w hw, decide_eq_true_eq, decide_eq_true_eq, redirect_eq_iff_of_ne hr hor]

/-- Joining the classes of two roots keeps the sizes right, also where it is refused. -/
theorem Weighed.join (h : Weighed s) (ha : a < s.nodes.size) (hb : b < s.nodes.size)
    (ha' : s.root a = a) (hb' : s.root b = b) (hopp : (s.node a).opposite < s.nodes.size) :
    Weighed (s.join a b).2 := by
  by_cases hab : a = b
  · rwa [ColorClasses.join, if_pos hab]
  by_cases hrefused : s.root (s.node a).opposite = b
  · have hjoin : (s.join a b).2 = (s.find (s.node a).opposite).2 := by
      have hother : (s.find (s.node a).opposite).1 = b := hrefused
      simp only [ColorClasses.join, if_neg hab, if_pos hother]
    rw [hjoin]
    exact h.find _
  obtain ⟨top, hjoin, hl⟩ := h.forest.join ha hb ha' hb' hopp (.inr hrefused)
  have hsize := size_join ha hb hab hjoin
  obtain ⟨hsum, hrest⟩ := hl.population hab h.nodeOf_lt
  refine ⟨hl.forest, fun w hw => ?_, fun r hr hr' => ?_⟩
  · rw [nodeOf, hl.index, hl.size_nodes]
    exact h.nodeOf_lt w (hl.order ▸ hw)
  · rw [hl.size_nodes] at hr
    rw [hl.root r hr] at hr'
    rw [hsize]
    by_cases htop : r = top
    · subst htop
      rw [if_pos rfl, hsum, h.size_eq a ha ha', h.size_eq b hb hb']
    · -- Another root was none of the two, or it would have become the top.
      have hor : ¬ (s.root r = a ∨ s.root r = b) := fun hor =>
        htop (hr'.symm.trans ((redirect_eq_top_iff hl.top_eq).mpr hor))
      rw [redirect, if_neg hor] at hr'
      rw [hr'] at hor
      rw [if_neg htop, hrest r htop hor, h.size_eq r hr hr']

/-- A merge whose first join is refused does nothing else. -/
theorem Weighed.merge_refused (h : Weighed s) (hp : s.Paired a b) (hopp : (s.node a).opposite <
    s.nodes.size) (fault : ColorFault) (c d : Nat) : Weighed (s.merge fault a b c d).2 := by
  have hjoin := h.join hp.lt hp.lt' hp.root hp.root' hopp
  have hrefused := (h.forest.join_opposite hp.ne hopp hp.opposed).1
  rw [merge]
  generalize s.join a b = first at hjoin hrefused
  obtain ⟨_, t⟩ := first
  cases hrefused
  exact hjoin

/-- Both joins of a merge keep the sizes right, as the second one joins roots that the first one has
left alone. -/
theorem Weighed.merge (h : Weighed s) (hv : Valid s) (hm : s.Mergeable a b a' b')
    (hc : c = a' ∨ c = b') (hd : d = a' ∨ d = b') (fault : ColorFault) :
    Weighed (s.merge fault a b c d).2 := by
  have hopp : (s.node a).opposite < s.nodes.size := hv.opposite_lt a hm.left.lt
  have hnotb : s.root (s.node a).opposite ≠ b := by
    rw [show s.root (s.node a).opposite = a' from hm.left.opposed]
    exact hm.ne'.symm
  obtain ⟨top, htop, hl⟩ :=
    h.forest.join hm.left.lt hm.right.lt hm.left.root hm.right.root hopp (.inr hnotb)
  have hfirst := h.join hm.left.lt hm.right.lt hm.left.root hm.right.root hopp
  have hstay : ∀ {r}, r = a' ∨ r = b' → (s.join a b).2.root r = r := fun hr => by
    rw [hl.root _ (hm.symm.lt_of_mem hr), hm.symm.root_of_mem hr, redirect,
      if_neg (hm.symm.apart hr)]
  have hlt : ∀ {r}, r < s.nodes.size → r < (s.join a b).2.nodes.size := fun hr =>
    hl.size_nodes.symm ▸ hr
  rw [ColorClasses.merge]
  generalize s.join a b = first at htop hl hfirst hstay hlt
  obtain ⟨_, t⟩ := first
  cases htop
  simp only at hl hfirst hstay hlt ⊢
  have hoppc : (t.node c).opposite < t.nodes.size := by
    rw [hl.opposite]
    exact hlt (hv.opposite_lt c (hm.symm.lt_of_mem hc))
  have hclt := hlt (hm.symm.lt_of_mem hc)
  have hdlt := hlt (hm.symm.lt_of_mem hd)
  have hsecond := hfirst.join hclt hdlt (hstay hc) (hstay hd) hoppc
  have hnodes := size_nodes_join t c d
  have htop' := @eq_or_eq_of_join t c d
  generalize t.join c d = second at hsecond hnodes htop'
  obtain ⟨_ | top', u⟩ := second
  · exact hsecond
  · simp only at hsecond hnodes
    refine hsecond.oppose ?_ ?_
    · rw [hnodes]
      exact hlt (hm.lt_of_mem hl.top_eq)
    · rw [hnodes]
      obtain rfl | rfl := htop' rfl
      · exact hclt
      · exact hdlt

/-! ### Calls -/

private theorem Weighed.met (h : Weighed s) (hv : Valid s) (a b : String) :
    Weighed (s.survey a b).met :=
  (((h.register hv a).register (hv.register a) b).find (s.register a).1).find
    ((s.register a).2.register b).1

private theorem Weighed.looked (h : Weighed s) (hv : Valid s) (a b : String) :
    Weighed (s.survey a b).looked :=
  ((h.met hv a b).find _).find _

theorem Weighed.differ (h : Weighed s) (hv : Valid s) (a b : String) :
    Weighed (s.differ a b).2 := by
  obtain ⟨hvalid, hfirst, hsecond⟩ := paired_survey hv a b
  rw [differ_eq_survey]
  split
  · exact h.met hv a b
  · next hne =>
    exact (h.looked hv a b).merge hvalid ⟨hfirst, hsecond.symm, hne⟩ (.inr rfl) (.inl rfl) _

theorem Weighed.agree (h : Weighed s) (hv : Valid s) (a b : String) :
    Weighed (s.agree a b).2 := by
  obtain ⟨hvalid, hfirst, hsecond⟩ := paired_survey hv a b
  have hlooked := h.looked hv a b
  rw [agree_eq_survey]
  split
  · exact h.met hv a b
  · by_cases hopposite : (s.survey a b).first = (s.survey a b).secondOpposed
    · have hpaired := hsecond.symm
      rw [← hopposite] at hpaired
      exact hlooked.merge_refused hpaired (hvalid.opposite_lt _ hfirst.lt) _ _ _
    · exact hlooked.merge hvalid ⟨hfirst, hsecond, hopposite⟩ (.inl rfl) (.inr rfl) _

theorem Weighed.attach (h : Weighed s) (hv : Valid s) (side : List String) :
    Weighed (s.attach side).2 := by
  match side with
  | [] => exact h
  | [w] => exact h.register hv w
  | [a, b] => exact h.differ hv a b
  | _ :: _ :: _ :: _ => exact h

theorem Weighed.attachEach (h : Weighed s) (hv : Valid s) (sides : List (List String)) :
    Weighed (s.attachEach sides).2 := by
  induction sides generalizing s with
  | nil => exact h
  | cons side sides ih =>
    have hside := h.attach hv side
    have hvalid := (settles_attach hv side).valid
    rw [ColorClasses.attachEach]
    generalize s.attach side = first at hside hvalid
    obtain ⟨_ | _, t⟩ := first
    · exact hside
    · exact ih hside hvalid

/-- The log plays no part in the sizes. -/
private theorem Weighed.of_log (h : Weighed s) (hnodes : t.nodes = s.nodes)
    (hindex : t.index = s.index) (horder : t.order = s.order) : Weighed t :=
  h.of_shortened (shortened_of_log h.forest hnodes hindex horder) fun x => by
    rw [node, hnodes, node]

/-- A batch is attached side by side, or leaves the sizes that were there before. -/
theorem Weighed.attachAll (h : Weighed s) (hv : Valid s) (sides : List (List String)) :
    Weighed (s.attachAll sides).2 := by
  by_cases hok : (s.attachAll sides).1 = .ok ()
  · rw [snd_attachAll hok]
    have hstart : Weighed s.startLog := h.of_log rfl rfl rfl
    exact (hstart.attachEach (alike_startLog hv).valid' sides).of_log rfl rfl rfl
  · rw [attachAll_eq_dropLog s sides hok]
    exact h.of_log rfl rfl rfl

theorem Weighed.answer (h : Weighed s) (hv : Valid s) (call : ColorCall) :
    Weighed (s.answer call).2 := by
  cases call with
  | attach side => exact h.attach hv side
  | attachAll sides => exact h.attachAll hv sides
  | paint w color => exact h.differ hv w color.other.channel
  | differ a b => exact h.differ hv a b
  | agree a b => exact h.agree hv a b

/-- The channels are the only wires at first. -/
theorem weighed_start : Weighed start where
  forest := represents_start.valid.forest
  nodeOf_lt w hw :=
    represents_start.valid.nodeOf_lt w ((represents_start.valid.mem_order w).mp hw)
  size_eq := by decide

/-- Sizes are right after any calls. -/
theorem weighed_replay (calls : List ColorCall) : Weighed (replay calls).1 := by
  induction calls using List.reverseRecOn with
  | nil => exact weighed_start
  | append_singleton calls call ih =>
    have hanswer := ih.answer (represents_replay calls).valid call
    rw [replay, List.foldl_append, ← replay, List.foldl_cons, List.foldl_nil, replayCall]
    generalize (replay calls).1.answer call = answer at hanswer
    obtain ⟨_ | _, t⟩ := answer <;> exact hanswer

/-! ### Well-formed forests -/

/-- What holds of a forest between calls. -/
structure WellFormed (s : ColorClasses) : Prop where
  /-- Parents lead to roots. -/
  forest : Forest s
  /-- Looking up a root ends at a root. -/
  root_ends : ∀ x < s.nodes.size, (s.node (s.root x)).parent = s.root x ∧
    ∃ rounds, Ends s.ascend x rounds (s.root x)
  /-- Shortening the way ends as well, and yields the same root. -/
  find_ends : ∀ x < s.nodes.size, (s.find x).1 = s.root x ∧
    ∃ rounds, Ends (cutShort (s.root x)) (s, x) rounds (s.find x).2
  /-- The channels are wires like others. -/
  channels : ∀ color : Color, s.Knows color.channel
  /-- A wire has a node, and its class has an opposite one, to which it is opposite. -/
  paired : ∀ w, s.Knows w → s.nodeOf w < s.nodes.size ∧
    s.opposed (s.classOf w) ≠ s.classOf w ∧ s.opposed (s.opposed (s.classOf w)) = s.classOf w
  /-- The wires are listed once. -/
  order : s.order.toList.Nodup ∧ ∀ w, w ∈ s.order.toList ↔ s.Knows w
  /-- The size of a root is the number of the wires in its class. -/
  size : ∀ r < s.nodes.size, (s.node r).parent = r → (s.node r).size = s.population r
  /-- Looking up a root changes no root, no size and no opposite. -/
  find_keeps : ∀ x < s.nodes.size, ∀ y < s.nodes.size, (s.find x).2.root y = s.root y ∧
    ((s.find x).2.node y).size = (s.node y).size ∧
    ((s.find x).2.node y).opposite = (s.node y).opposite ∧
    (s.find x).2.opposed y = s.opposed y

theorem Valid.wellFormed (h : Valid s) (hs : Weighed s) (hchannels : ∀ color : Color,
    s.Knows color.channel) : WellFormed s where
  forest := h.forest
  root_ends x hx := by
    obtain ⟨rounds, -, hends⟩ := h.forest.exists_ends_ascend hx
    exact ⟨h.forest.isRoot_root hx, rounds, hends⟩
  find_ends x hx := by
    obtain ⟨rounds, -, hends⟩ := h.forest.exists_ends_cutShort hx
    exact ⟨rfl, rounds, hends⟩
  channels := hchannels
  paired w hw := by
    have hp := h.paired w hw
    exact ⟨h.nodeOf_lt w hw, hp.ne.symm, hp.opposed'⟩
  order := ⟨h.nodup_order, h.mem_order⟩
  size r hr hroot := hs.size_eq r hr (root_of_isRoot hroot)
  find_keeps x hx y hy := by
    have hshort := h.forest.find hx
    exact ⟨hshort.root y hy, size_find s x y, hshort.opposite y, hshort.opposed h hy⟩

end ColorClasses

open ColorClasses

/-- After any calls, accepted, refused or taken back, the forest is well formed. -/
theorem wellFormed_replay (calls : List ColorCall) : (replay calls).1.WellFormed :=
  (represents_replay calls).valid.wellFormed (weighed_replay calls)
    (represents_replay calls).knows_channel

end CombinatorNet
