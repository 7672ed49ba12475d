import CombinatorNet.Proofs.Coloring.Roots

/-!
# What the forest says about colors

A coloring respects the forest if it is constant on every class and differs between a class and its
opposite. Meeting a wire and looking up a root do not change which colorings do; making two pairs of
classes one leaves those that already agree on the pairs.

## Main definitions

* `ColorClasses.classOf`, `ColorClasses.rival` — the roots of the class of a wire and of the
  opposite one
* `ColorClasses.Paired` — roots of opposite classes
* `ColorClasses.Valid` — every wire has a class and an opposite one
* `ColorClasses.Respects` — a coloring fits the classes

## Main results

* `ColorClasses.Valid.register`, `ColorClasses.Shortened.valid`, `ColorClasses.Merged.valid` — the
  steps keep a forest valid
* `ColorClasses.respects_register`, `ColorClasses.Shortened.respects`,
  `ColorClasses.Merged.respects` — what they do to the colorings
-/

namespace CombinatorNet.ColorClasses

variable {s t u : ColorClasses} {a a' b b' r r' x : Nat} {w : String} {f : String → Color}

/-- The wire has a node. -/
def Knows (s : ColorClasses) (w : String) : Prop := (s.index.get? w).isSome

/-- The node of a wire. -/
def nodeOf (s : ColorClasses) (w : String) : Nat := (s.index.get? w).getD 0

/-- The root of the class of a wire. -/
def classOf (s : ColorClasses) (w : String) : Nat := s.root (s.nodeOf w)

/-- The root of the class opposite to that of a root. -/
def opposed (s : ColorClasses) (r : Nat) : Nat := s.root (s.node r).opposite

/-- The root of the class opposite to that of a wire. -/
def rival (s : ColorClasses) (w : String) : Nat := s.opposed (s.classOf w)

/-- Two roots of classes that are opposite to each other. -/
structure Paired (s : ColorClasses) (r r' : Nat) : Prop where
  lt : r < s.nodes.size
  lt' : r' < s.nodes.size
  root : s.root r = r
  root' : s.root r' = r'
  opposed : s.opposed r = r'
  opposed' : s.opposed r' = r
  ne : r ≠ r'

/-- Every wire has a class and a class opposite to it. Nodes whose opposite has gone on to another
class may remain, but no wire leads to them. -/
structure Valid (s : ColorClasses) : Prop where
  forest : Forest s
  opposite_lt : ∀ x < s.nodes.size, (s.node x).opposite < s.nodes.size
  nodeOf_lt : ∀ w, s.Knows w → s.nodeOf w < s.nodes.size
  paired : ∀ w, s.Knows w → s.Paired (s.classOf w) (s.rival w)
  mem_order : ∀ w, w ∈ s.order.toList ↔ s.Knows w
  nodup_order : s.order.toList.Nodup

/-- The coloring gives each wire the color of its class, and the other one to the opposite class. -/
def Explains (s : ColorClasses) (f : String → Color) (g : Nat → Color) : Prop :=
  ∀ w, s.Knows w → f w = g (s.classOf w) ∧ g (s.rival w) = (f w).other

/-- The classes have colors that explain the coloring of the wires. -/
def Respects (s : ColorClasses) (f : String → Color) : Prop := ∃ g, s.Explains f g

theorem Paired.symm (h : s.Paired r r') : s.Paired r' r :=
  ⟨h.lt', h.lt, h.root', h.root, h.opposed', h.opposed, h.ne.symm⟩

/-- A root has one opposite. -/
theorem Paired.unique {q : Nat} (h : s.Paired r r') (h' : s.Paired r q) : r' = q :=
  h.opposed.symm.trans h'.opposed

theorem Paired.eq_iff (ha : s.Paired a a') (hb : s.Paired b b') : a = b ↔ a' = b' :=
  ⟨fun h => ha.unique (h ▸ hb), fun h => ha.symm.unique (h ▸ hb.symm)⟩

theorem Valid.classOf_lt (h : Valid s) (hw : s.Knows w) : s.classOf w < s.nodes.size :=
  h.forest.root_lt (h.nodeOf_lt w hw)

/-! ### Looking up a root -/

theorem Shortened.classOf (h : Shortened s t) (hs : Valid s) (hw : s.Knows w) :
    t.classOf w = s.classOf w := by
  rw [ColorClasses.classOf, nodeOf, h.index]
  exact h.root _ (hs.nodeOf_lt w hw)

theorem Shortened.opposed (h : Shortened s t) (hs : Valid s) (hr : r < s.nodes.size) :
    t.opposed r = s.opposed r := by
  rw [ColorClasses.opposed, h.opposite]
  exact h.root _ (hs.opposite_lt r hr)

theorem Shortened.rival (h : Shortened s t) (hs : Valid s) (hw : s.Knows w) :
    t.rival w = s.rival w := by
  rw [ColorClasses.rival, h.classOf hs hw]
  exact h.opposed hs (hs.classOf_lt hw)

theorem Shortened.knows (h : Shortened s t) : t.Knows w ↔ s.Knows w := by
  rw [Knows, Knows, h.index]

theorem Shortened.paired (h : Shortened s t) (hs : Valid s) (hp : s.Paired r r') :
    t.Paired r r' where
  lt := h.size_nodes.symm ▸ hp.lt
  lt' := h.size_nodes.symm ▸ hp.lt'
  root := (h.root r hp.lt).trans hp.root
  root' := (h.root r' hp.lt').trans hp.root'
  opposed := (h.opposed hs hp.lt).trans hp.opposed
  opposed' := (h.opposed hs hp.lt').trans hp.opposed'
  ne := hp.ne

theorem Shortened.valid (h : Shortened s t) (hs : Valid s) : Valid t where
  forest := h.forest
  opposite_lt x hx := by
    rw [h.size_nodes] at hx ⊢
    rw [h.opposite]
    exact hs.opposite_lt x hx
  nodeOf_lt w hw := by
    rw [nodeOf, h.index, h.size_nodes]
    exact hs.nodeOf_lt w (h.knows.mp hw)
  paired w hw := by
    have hw' := h.knows.mp hw
    rw [h.classOf hs hw', h.rival hs hw']
    exact h.paired hs (hs.paired w hw')
  mem_order w := by rw [h.order, h.knows, hs.mem_order]
  nodup_order := h.order ▸ hs.nodup_order

theorem Shortened.explains (h : Shortened s t) (hs : Valid s) {g : Nat → Color} :
    t.Explains f g ↔ s.Explains f g := by
  refine forall_congr' fun w => ?_
  rw [h.knows]
  refine imp_congr_right fun hw => ?_
  rw [h.classOf hs hw, h.rival hs hw]

/-- Looking up a root leaves the same colorings. -/
theorem Shortened.respects (h : Shortened s t) (hs : Valid s) : t.Respects f ↔ s.Respects f :=
  exists_congr fun _ => h.explains hs

/-! ### Meeting a wire -/

theorem register_of_knows (hw : s.Knows w) : s.register w = (s.nodeOf w, s) := by
  obtain ⟨i, hi⟩ := Option.isSome_iff_exists.mp hw
  simp [register, nodeOf, hi]

/-- The forest with a new wire. -/
private def enroll (s : ColorClasses) (w : String) : ColorClasses :=
  { s with
    nodes := (s.nodes.push ⟨s.nodes.size, 1, s.nodes.size + 1⟩).push
      ⟨s.nodes.size + 1, 0, s.nodes.size⟩
    index := s.index.insert w s.nodes.size
    order := s.order.push w }

private theorem register_of_not_knows (hw : ¬ s.Knows w) :
    s.register w = (s.nodes.size, s.enroll w) := by
  have hnone : s.index.get? w = none := by simpa [Knows] using hw
  rw [register, hnone]
  rfl

@[simp] private theorem size_nodes_enroll : (s.enroll w).nodes.size = s.nodes.size + 2 := by
  simp [enroll]

private theorem node_enroll : (s.enroll w).node x =
    if x = s.nodes.size then ⟨x, 1, x + 1⟩
    else if x = s.nodes.size + 1 then ⟨x, 0, s.nodes.size⟩ else s.node x := by
  simp only [node, enroll, Array.getD_eq_getD_getElem?, Array.getElem?_push, Array.size_push]
  by_cases hx : x = s.nodes.size
  · subst hx
    simp
  · by_cases hx' : x = s.nodes.size + 1
    · subst hx'
      simp
    · simp [hx, hx']

private theorem node_enroll_of_lt (hx : x < s.nodes.size) : (s.enroll w).node x = s.node x := by
  rw [node_enroll, if_neg (Nat.ne_of_lt hx), if_neg (by omega)]

private theorem knows_enroll {v : String} : (s.enroll w).Knows v ↔ v = w ∨ s.Knows v := by
  unfold Knows
  rw [enroll, NameMap.get?_insert]
  by_cases hv : v = w <;> simp [hv]

private theorem forest_enroll (h : Forest s) : Forest (s.enroll w) := by
  obtain ⟨depth, hdepth⟩ := h.descends
  -- The old nodes keep their parents, and the two new ones are roots.
  have hcases : ∀ x < s.nodes.size + 2,
      x < s.nodes.size ∨ ((s.enroll w).node x).parent = x := fun x hx => by
    by_cases hlt : x < s.nodes.size
    · exact .inl hlt
    · refine .inr ?_
      rw [node_enroll]
      by_cases hx' : x = s.nodes.size
      · rw [if_pos hx']
      · rw [if_neg hx', if_pos (by omega)]
  refine ⟨fun x hx => ?_, depth, fun x hx hne => ?_⟩
  all_goals
    rw [size_nodes_enroll] at hx
    obtain hlt | hroot := hcases x hx
  · rw [node_enroll_of_lt hlt, size_nodes_enroll]
    exact (h.parent_lt x hlt).trans (by omega)
  · rw [hroot, size_nodes_enroll]
    exact hx
  · rw [node_enroll_of_lt hlt] at hne ⊢
    exact hdepth x hlt hne
  · exact absurd hroot hne

private theorem root_enroll_of_lt (h : Forest s) (hx : x < s.nodes.size) :
    (s.enroll w).root x = s.root x := by
  refine (h.root_unique (f := (s.enroll w).root) (fun y hy hroot => ?_) (fun y hy _ => ?_) hx).symm
  · exact root_of_isRoot (by rwa [node_enroll_of_lt hy])
  · rw [← (forest_enroll h).root_parent (by simp; omega), node_enroll_of_lt hy]

private theorem opposed_enroll_of_lt (h : Valid s) (hx : x < s.nodes.size) :
    (s.enroll w).opposed x = s.opposed x := by
  rw [opposed, node_enroll_of_lt hx]
  exact root_enroll_of_lt h.forest (h.opposite_lt x hx)

private theorem nodeOf_enroll_of_ne {v : String} (hv : v ≠ w) :
    (s.enroll w).nodeOf v = s.nodeOf v := by
  rw [nodeOf, enroll, NameMap.get?_insert, if_neg hv, nodeOf]

private theorem nodeOf_enroll : (s.enroll w).nodeOf w = s.nodes.size := by
  rw [nodeOf, enroll, NameMap.get?_insert_self, Option.getD_some]

/-- The classes of the new wire. -/
private theorem paired_enroll : (s.enroll w).Paired s.nodes.size (s.nodes.size + 1) := by
  have hself : ((s.enroll w).node s.nodes.size) = ⟨s.nodes.size, 1, s.nodes.size + 1⟩ := by
    rw [node_enroll, if_pos rfl]
  have hnext : ((s.enroll w).node (s.nodes.size + 1)) = ⟨s.nodes.size + 1, 0, s.nodes.size⟩ := by
    rw [node_enroll, if_neg (by omega), if_pos rfl]
  have hroot : (s.enroll w).root s.nodes.size = s.nodes.size := root_of_isRoot (by rw [hself])
  have hroot' : (s.enroll w).root (s.nodes.size + 1) = s.nodes.size + 1 :=
    root_of_isRoot (by rw [hnext])
  refine ⟨by simp, by simp, hroot, hroot', ?_, ?_, by omega⟩
  · rw [opposed, hself, hroot']
  · rw [opposed, hnext, hroot]

private theorem Paired.enroll (h : Valid s) (hp : s.Paired r r') : (s.enroll w).Paired r r' where
  lt := by simpa using hp.lt.trans (by omega)
  lt' := by simpa using hp.lt'.trans (by omega)
  root := (root_enroll_of_lt h.forest hp.lt).trans hp.root
  root' := (root_enroll_of_lt h.forest hp.lt').trans hp.root'
  opposed := (opposed_enroll_of_lt h hp.lt).trans hp.opposed
  opposed' := (opposed_enroll_of_lt h hp.lt').trans hp.opposed'
  ne := hp.ne

private theorem classOf_enroll (h : Valid s) {v : String} (hw : ¬ s.Knows w) (hv : s.Knows v) :
    (s.enroll w).classOf v = s.classOf v ∧ (s.enroll w).rival v = s.rival v := by
  have hne : v ≠ w := fun heq => hw (heq ▸ hv)
  have hclass : (s.enroll w).classOf v = s.classOf v := by
    rw [classOf, nodeOf_enroll_of_ne hne]
    exact root_enroll_of_lt h.forest (h.nodeOf_lt v hv)
  refine ⟨hclass, ?_⟩
  rw [rival, hclass]
  exact opposed_enroll_of_lt h (h.classOf_lt hv)

private theorem classOf_enroll_self : (s.enroll w).classOf w = s.nodes.size ∧
    (s.enroll w).rival w = s.nodes.size + 1 := by
  have hclass : (s.enroll w).classOf w = s.nodes.size := by
    rw [classOf, nodeOf_enroll, paired_enroll.root]
  exact ⟨hclass, by rw [rival, hclass, paired_enroll.opposed]⟩

private theorem Valid.enroll (h : Valid s) (hw : ¬ s.Knows w) : Valid (s.enroll w) where
  forest := forest_enroll h.forest
  opposite_lt x hx := by
    rw [size_nodes_enroll] at hx ⊢
    rw [node_enroll]
    split
    · show x + 1 < _
      omega
    · split
      · show s.nodes.size < _
        omega
      · exact (h.opposite_lt x (by omega)).trans (by omega)
  nodeOf_lt v hv := by
    rw [size_nodes_enroll]
    by_cases hvw : v = w
    · rw [hvw, nodeOf_enroll]
      omega
    · rw [nodeOf_enroll_of_ne hvw]
      exact (h.nodeOf_lt v ((knows_enroll.mp hv).resolve_left hvw)).trans (by omega)
  paired v hv := by
    obtain rfl | hv := knows_enroll.mp hv
    · rw [classOf_enroll_self.1, classOf_enroll_self.2]
      exact paired_enroll
    · rw [(classOf_enroll h hw hv).1, (classOf_enroll h hw hv).2]
      exact (h.paired v hv).enroll h
  mem_order v := by
    rw [knows_enroll, ← h.mem_order, ColorClasses.enroll, Array.toList_push, List.mem_append,
      List.mem_singleton, or_comm]
  nodup_order := by
    rw [ColorClasses.enroll, Array.toList_push]
    refine List.nodup_append.mpr ⟨h.nodup_order, by simp, fun v hv v' hv' => ?_⟩
    rw [List.mem_singleton] at hv'
    subst hv'
    rintro rfl
    exact hw ((h.mem_order v).mp hv)

/-- A new wire is free to have either color. -/
private theorem respects_enroll (h : Valid s) (hw : ¬ s.Knows w) :
    (s.enroll w).Respects f ↔ s.Respects f := by
  constructor
  · rintro ⟨g, hg⟩
    refine ⟨g, fun v hv => ?_⟩
    have hv' := hg v (knows_enroll.mpr (.inr hv))
    rwa [(classOf_enroll h hw hv).1, (classOf_enroll h hw hv).2] at hv'
  · -- The two new classes take the color of the wire and the other one.
    rintro ⟨g, hg⟩
    refine ⟨fun x => if x < s.nodes.size then g x
      else if x = s.nodes.size then f w else (f w).other, fun v hv => ?_⟩
    obtain rfl | hv := knows_enroll.mp hv
    · rw [classOf_enroll_self.1, classOf_enroll_self.2]
      simp
    · have hp := h.paired v hv
      rw [(classOf_enroll h hw hv).1, (classOf_enroll h hw hv).2]
      simp only [hp.lt, hp.lt', if_true]
      exact hg v hv

theorem Valid.register (h : Valid s) (w : String) : Valid (s.register w).2 := by
  by_cases hw : s.Knows w
  · rwa [register_of_knows hw]
  · rw [register_of_not_knows hw]
    exact h.enroll hw

theorem knows_register {v : String} : (s.register w).2.Knows v ↔ v = w ∨ s.Knows v := by
  by_cases hw : s.Knows w
  · rw [register_of_knows hw]
    refine ⟨.inr, ?_⟩
    rintro (rfl | hv)
    · exact hw
    · exact hv
  · rw [register_of_not_knows hw, knows_enroll]

theorem nodeOf_register : (s.register w).2.nodeOf w = (s.register w).1 := by
  by_cases hw : s.Knows w
  · rw [register_of_knows hw]
  · rw [register_of_not_knows hw, nodeOf_enroll]

theorem nodeOf_register_of_knows {v : String} (hv : s.Knows v) :
    (s.register w).2.nodeOf v = s.nodeOf v := by
  by_cases hw : s.Knows w
  · rw [register_of_knows hw]
  · have hne : v ≠ w := fun heq => hw (heq ▸ hv)
    rw [register_of_not_knows hw, nodeOf_enroll_of_ne hne]

/-- Meeting a wire leaves the other wires in their classes. -/
theorem classOf_register_of_knows (h : Valid s) {v : String} (hv : s.Knows v) :
    (s.register w).2.classOf v = s.classOf v ∧ (s.register w).2.rival v = s.rival v := by
  by_cases hw : s.Knows w
  · rw [register_of_knows hw]
    exact ⟨rfl, rfl⟩
  · rw [register_of_not_knows hw]
    exact classOf_enroll h hw hv

/-- A new wire has new classes. -/
theorem classOf_register_of_not_knows (hw : ¬ s.Knows w) :
    (s.register w).2.classOf w = s.nodes.size ∧ (s.register w).2.rival w = s.nodes.size + 1 := by
  rw [register_of_not_knows hw]
  exact classOf_enroll_self

/-- A new wire brings two roots that are opposite to each other, and leaves the other nodes. -/
theorem node_register_of_not_knows (hw : ¬ s.Knows w) (x : Nat) :
    (s.register w).2.node x =
      if x = s.nodes.size then ⟨x, 1, x + 1⟩
      else if x = s.nodes.size + 1 then ⟨x, 0, s.nodes.size⟩ else s.node x := by
  rw [register_of_not_knows hw]
  exact node_enroll

theorem size_nodes_register_of_not_knows (hw : ¬ s.Knows w) :
    (s.register w).2.nodes.size = s.nodes.size + 2 := by
  rw [register_of_not_knows hw]
  exact size_nodes_enroll

theorem order_register (w : String) : s.order.toList <+: (s.register w).2.order.toList := by
  by_cases hw : s.Knows w
  · rw [register_of_knows hw]
  · rw [register_of_not_knows hw, enroll, Array.toList_push]
    exact List.prefix_append _ _

/-- Meeting a wire leaves the same colorings. -/
theorem respects_register (h : Valid s) (w : String) :
    (s.register w).2.Respects f ↔ s.Respects f := by
  by_cases hw : s.Knows w
  · rw [register_of_knows hw]
  · rw [register_of_not_knows hw]
    exact respects_enroll h hw

/-! ### Making two pairs of classes one -/

/-- A forest in which the classes of `a` and `b` have become one, and so have the ones opposite to
them. -/
structure Merged (s t : ColorClasses) (a b a' b' top top' : Nat) : Prop where
  forest : Forest t
  size_nodes : t.nodes.size = s.nodes.size
  top_eq : top = a ∨ top = b
  top_eq' : top' = a' ∨ top' = b'
  root : ∀ x < s.nodes.size, t.root x = redirect a' b' top' (redirect a b top (s.root x))
  opposite : ∀ x, (t.node x).opposite =
    if x = top' then top else if x = top then top' else (s.node x).opposite
  index : t.index = s.index
  order : t.order = s.order

/-- Join two roots and then the ones opposite to them. -/
def merge (s : ColorClasses) (fault : ColorFault) (a b c d : Nat) :
    Except ColorFault Unit × ColorClasses :=
  match s.join a b with
  | (none, s) => (.error fault, s)
  | (some top, s) =>
    match s.join c d with
    | (none, s) => (.error fault, s)
    | (some top', s) => (.ok (), s.oppose top top')

/-- Four roots of two opposite pairs that may become one pair. -/
structure Mergeable (s : ColorClasses) (a b a' b' : Nat) : Prop where
  left : s.Paired a a'
  right : s.Paired b b'
  ne : a ≠ b'

namespace Mergeable

variable {top top' : Nat}

theorem ne' (h : s.Mergeable a b a' b') : b ≠ a' :=
  fun heq => h.ne (h.right.unique (heq ▸ h.left.symm)).symm

/-- The opposite classes may become one as well. -/
theorem symm (h : s.Mergeable a b a' b') : s.Mergeable a' b' a b :=
  ⟨h.left.symm, h.right.symm, h.ne'.symm⟩

theorem lt_of_mem (h : s.Mergeable a b a' b') (hr : r = a ∨ r = b) : r < s.nodes.size := by
  obtain rfl | rfl := hr
  · exact h.left.lt
  · exact h.right.lt

theorem root_of_mem (h : s.Mergeable a b a' b') (hr : r = a ∨ r = b) : s.root r = r := by
  obtain rfl | rfl := hr
  · exact h.left.root
  · exact h.right.root

/-- No root of the one class is a root of the other one. -/
theorem apart (h : s.Mergeable a b a' b') (hr : r = a ∨ r = b) : ¬ (r = a' ∨ r = b') := by
  obtain rfl | rfl := hr
  · exact not_or.mpr ⟨h.left.ne, h.ne⟩
  · exact not_or.mpr ⟨h.ne', h.right.ne⟩

theorem redirect_of_left (h : s.Mergeable a b a' b') (htop : top = a ∨ top = b)
    (hr : r = a ∨ r = b) : redirect a' b' top' (redirect a b top r) = top := by
  rw [redirect, redirect, if_pos hr, if_neg (h.apart htop)]

theorem redirect_of_right (h : s.Mergeable a b a' b') (hr : r = a' ∨ r = b') :
    redirect a' b' top' (redirect a b top r) = top' := by
  rw [redirect, redirect, if_neg (h.symm.apart hr), if_pos hr]

end Mergeable

/-- Once two roots have become one, the ones opposite to them can be joined. -/
private theorem Linked.join (hs : Valid s) (h : s.Mergeable a b a' b') {top c d : Nat}
    (hl : Linked s t a b top) (hc : s.Paired c (s.opposed c)) (hd : s.Paired d (s.opposed d))
    (hc' : c = a' ∨ c = b') (hd' : d = a' ∨ d = b')
    (hopp : s.opposed c = a ∨ s.opposed c = b) :
    ∃ top', (t.join c d).1 = some top' ∧ Linked t (t.join c d).2 c d top' := by
  -- The roots of the other side are not touched by the first join.
  have hstay : ∀ {r}, s.Paired r (s.opposed r) → r = a' ∨ r = b' → t.root r = r := by
    intro r hr hr'
    rw [hl.root r hr.lt, hr.root, redirect, if_neg (h.symm.apart hr')]
  have hlt : ∀ {r}, r < s.nodes.size → r < t.nodes.size := fun hr => hl.size_nodes.symm ▸ hr
  have hopposite : (t.node c).opposite < s.nodes.size := by
    rw [hl.opposite]
    exact hs.opposite_lt c hc.lt
  refine hl.forest.join (hlt hc.lt) (hlt hd.lt) (hstay hc hc') (hstay hd hd') (hlt hopposite)
    (.inr ?_)
  -- What is opposite to `c` has become `top`, which is on the other side.
  rw [hl.root _ hopposite, hl.opposite, redirect, if_pos (by exact hopp)]
  rintro rfl
  exact h.apart hl.top_eq hd'

/-- A merge whose joins go through makes the new roots opposite. -/
private theorem merge_eq {fault : ColorFault} {top top' c d : Nat}
    (hjoin : (s.join a b).1 = some top) (hjoin' : ((s.join a b).2.join c d).1 = some top') :
    s.merge fault a b c d = (.ok (), ((s.join a b).2.join c d).2.oppose top top') := by
  rw [ColorClasses.merge]
  generalize s.join a b = first at hjoin hjoin'
  obtain ⟨_, s₁⟩ := first
  cases hjoin
  simp only at hjoin' ⊢
  generalize s₁.join c d = second at hjoin'
  obtain ⟨_, s₂⟩ := second
  cases hjoin'
  rfl

/-- Joining two roots and the ones opposite to them makes two pairs of classes one. -/
private theorem Linked.merged (h : s.Mergeable a b a' b') {top top' : Nat}
    (hl : Linked s t a b top) (hl' : Linked t u a' b' top') :
    Merged s (u.oppose top top') a b a' b' top top' := by
  have hsize : u.nodes.size = s.nodes.size := hl'.size_nodes.trans hl.size_nodes
  have htop : top < u.nodes.size := hsize.symm ▸ h.lt_of_mem hl.top_eq
  have htop' : top' < u.nodes.size := hsize.symm ▸ h.symm.lt_of_mem hl'.top_eq
  refine ⟨hl'.forest.oppose htop htop', ?_, hl.top_eq, hl'.top_eq, fun x hx => ?_, fun x => ?_, ?_,
    ?_⟩
  · rw [size_nodes_oppose, hsize]
  · rw [root_oppose hl'.forest htop htop' (hsize.symm ▸ hx), hl'.root x (hl.size_nodes.symm ▸ hx),
      hl.root x hx]
  · rw [(node_oppose htop htop' x).2, hl'.opposite, hl.opposite]
  · rw [index_oppose, hl'.index, hl.index]
  · rw [order_oppose, hl'.order, hl.order]

/-- Neither join of a merge can fail. -/
theorem Valid.merge {c d : Nat} (hs : Valid s) (h : s.Mergeable a b a' b')
    (hcd : c = a' ∧ d = b' ∨ c = b' ∧ d = a') (fault : ColorFault) :
    ∃ top top', (s.merge fault a b c d).1 = .ok () ∧
      Merged s (s.merge fault a b c d).2 a b a' b' top top' := by
  -- The roots `a` and `b` are not opposite, since the class opposite to `a` is that of `a'`.
  have hnotb : s.root (s.node a).opposite ≠ b := by
    rw [show s.root (s.node a).opposite = a' from h.left.opposed]
    exact h.ne'.symm
  obtain ⟨top, hjoin, hl⟩ := hs.forest.join h.left.lt h.right.lt h.left.root h.right.root
    (hs.opposite_lt a h.left.lt) (.inr hnotb)
  have hleft : s.Paired a' (s.opposed a') := by
    rw [h.left.opposed']
    exact h.left.symm
  have hright : s.Paired b' (s.opposed b') := by
    rw [h.right.opposed']
    exact h.right.symm
  -- The opposite roots come in either order, which makes no difference to the outcome.
  obtain ⟨top', hjoin', hl'⟩ : ∃ top', ((s.join a b).2.join c d).1 = some top' ∧
      Linked (s.join a b).2 ((s.join a b).2.join c d).2 a' b' top' := by
    obtain ⟨rfl, rfl⟩ | ⟨rfl, rfl⟩ := hcd
    · exact hl.join hs h hleft hright (.inl rfl) (.inr rfl) (.inl h.left.opposed')
    · obtain ⟨top', hjoin', hl'⟩ :=
        hl.join hs h hright hleft (.inr rfl) (.inl rfl) (.inr h.right.opposed')
      exact ⟨top', hjoin', hl'.symm⟩
  refine ⟨top, top', ?_⟩
  rw [merge_eq hjoin hjoin']
  exact ⟨rfl, hl.merged h hl'⟩

/-- A pair of opposite classes is one of those that become one, or stays out of it. -/
theorem Mergeable.cases (h : s.Mergeable a b a' b') (hp : s.Paired r r') :
    (r = a ∨ r = b) ∧ (r' = a' ∨ r' = b') ∨ (r = a' ∨ r = b') ∧ (r' = a ∨ r' = b) ∨
      (¬ (r = a ∨ r = b) ∧ ¬ (r = a' ∨ r = b')) ∧ ¬ (r' = a ∨ r' = b) ∧ ¬ (r' = a' ∨ r' = b') := by
  -- A root is one of the four exactly if its opposite is the one opposite to that.
  have hleft : r = a ↔ r' = a' := hp.eq_iff h.left
  have hright : r = b ↔ r' = b' := hp.eq_iff h.right
  have hleft' : r = a' ↔ r' = a := hp.eq_iff h.left.symm
  have hright' : r = b' ↔ r' = b := hp.eq_iff h.right.symm
  rw [hleft, hright, hleft', hright']
  tauto

namespace Merged

variable {top top' : Nat}

theorem root_of_left (hm : Merged s t a b a' b' top top') (h : s.Mergeable a b a' b')
    (hr : r = a ∨ r = b) : t.root r = top := by
  rw [hm.root r (h.lt_of_mem hr), h.root_of_mem hr]
  exact h.redirect_of_left hm.top_eq hr

theorem root_of_right (hm : Merged s t a b a' b' top top') (h : s.Mergeable a b a' b')
    (hr : r = a' ∨ r = b') : t.root r = top' := by
  rw [hm.root r (h.symm.lt_of_mem hr), h.symm.root_of_mem hr]
  exact h.redirect_of_right hr

theorem root_of_neither (hm : Merged s t a b a' b' top top') (hp : s.Paired r r')
    (hr : ¬ (r = a ∨ r = b)) (hr' : ¬ (r = a' ∨ r = b')) : t.root r = r := by
  rw [hm.root r hp.lt, hp.root, redirect, redirect, if_neg hr, if_neg hr']

theorem tops_ne (hm : Merged s t a b a' b' top top') (h : s.Mergeable a b a' b') : top ≠ top' := by
  rintro rfl
  exact h.apart hm.top_eq hm.top_eq'

theorem knows (hm : Merged s t a b a' b' top top') : t.Knows w ↔ s.Knows w := by
  rw [Knows, Knows, hm.index]

theorem opposed_root (hm : Merged s t a b a' b' top top') (h : s.Mergeable a b a' b')
    (hs : Valid s) (hp : s.Paired r r') : t.opposed (t.root r) = t.root r' := by
  -- The new roots point at each other; a pair that stays out of the merge keeps its pointers.
  obtain ⟨hr, hr'⟩ | ⟨hr, hr'⟩ | ⟨⟨hr, hr₁⟩, hr', hr₂⟩ := h.cases hp
  · rw [hm.root_of_left h hr, hm.root_of_right h hr', opposed, hm.opposite,
      if_neg (hm.tops_ne h), if_pos rfl, hm.root_of_right h hm.top_eq']
  · rw [hm.root_of_right h hr, hm.root_of_left h hr', opposed, hm.opposite, if_pos rfl,
      hm.root_of_left h hm.top_eq]
  · have hne : r ≠ top := by
      rintro rfl
      exact hr hm.top_eq
    have hne' : r ≠ top' := by
      rintro rfl
      exact hr₁ hm.top_eq'
    rw [hm.root_of_neither hp hr hr₁, opposed, hm.opposite, if_neg hne', if_neg hne,
      hm.root _ (hs.opposite_lt r hp.lt), hm.root r' hp.lt', hp.root']
    exact congrArg _ (congrArg _ hp.opposed)

/-- Opposite classes stay opposite. -/
theorem paired (hm : Merged s t a b a' b' top top') (h : s.Mergeable a b a' b') (hs : Valid s)
    (hp : s.Paired r r') : t.Paired (t.root r) (t.root r') := by
  have hlt : ∀ {x}, x < s.nodes.size → x < t.nodes.size := fun hx => hm.size_nodes.symm ▸ hx
  refine ⟨hm.forest.root_lt (hlt hp.lt), hm.forest.root_lt (hlt hp.lt'),
    hm.forest.root_root (hlt hp.lt), hm.forest.root_root (hlt hp.lt'), hm.opposed_root h hs hp,
    hm.opposed_root h hs hp.symm, ?_⟩
  obtain ⟨hr, hr'⟩ | ⟨hr, hr'⟩ | ⟨⟨hr, hr₁⟩, hr', hr₂⟩ := h.cases hp
  · rw [hm.root_of_left h hr, hm.root_of_right h hr']
    exact hm.tops_ne h
  · rw [hm.root_of_right h hr, hm.root_of_left h hr']
    exact (hm.tops_ne h).symm
  · rw [hm.root_of_neither hp hr hr₁, hm.root_of_neither hp.symm hr' hr₂]
    exact hp.ne

theorem classOf (hm : Merged s t a b a' b' top top') (hs : Valid s) (hw : s.Knows w) :
    t.classOf w = t.root (s.classOf w) := by
  -- Going to the old root first leads to the same new root.
  have hlt := hs.nodeOf_lt w hw
  rw [ColorClasses.classOf, nodeOf, hm.index, ColorClasses.classOf]
  rw [hm.root _ (hs.forest.root_lt hlt), hs.forest.root_root hlt]
  exact hm.root _ hlt

theorem rival (hm : Merged s t a b a' b' top top') (h : s.Mergeable a b a' b') (hs : Valid s)
    (hw : s.Knows w) : t.rival w = t.root (s.rival w) := by
  rw [ColorClasses.rival, hm.classOf hs hw]
  exact hm.opposed_root h hs (hs.paired w hw)

theorem valid (hm : Merged s t a b a' b' top top') (h : s.Mergeable a b a' b') (hs : Valid s) :
    Valid t where
  forest := hm.forest
  opposite_lt x hx := by
    rw [hm.size_nodes] at hx ⊢
    rw [hm.opposite]
    split
    · exact h.lt_of_mem hm.top_eq
    · split
      · exact h.symm.lt_of_mem hm.top_eq'
      · exact hs.opposite_lt x hx
  nodeOf_lt w hw := by
    rw [nodeOf, hm.index, hm.size_nodes]
    exact hs.nodeOf_lt w (hm.knows.mp hw)
  paired w hw := by
    have hw' := hm.knows.mp hw
    rw [hm.classOf hs hw', hm.rival h hs hw']
    exact hm.paired h hs (hs.paired w hw')
  mem_order w := by rw [hm.order, hm.knows, hs.mem_order]
  nodup_order := hm.order ▸ hs.nodup_order

/-- A merge leaves the colorings whose class colors agree on what becomes one. -/
theorem respects (hm : Merged s t a b a' b' top top') (h : s.Mergeable a b a' b') (hs : Valid s) :
    t.Respects f ↔ ∃ g, s.Explains f g ∧ g a = g b ∧ g a' = g b' := by
  constructor
  · -- An old root is given the color of the root it has become.
    rintro ⟨g, hg⟩
    refine ⟨fun r => g (t.root r), fun w hw => ?_, ?_, ?_⟩
    · have hw' := hg w (hm.knows.mpr hw)
      rwa [hm.classOf hs hw, hm.rival h hs hw] at hw'
    · simp only [hm.root_of_left h (.inl rfl), hm.root_of_left h (.inr rfl)]
    · simp only [hm.root_of_right h (.inl rfl), hm.root_of_right h (.inr rfl)]
  · rintro ⟨g, hg, hab, hab'⟩
    -- The colors of the old roots still serve, as a root has the color of the one it became.
    have hsame : ∀ {r r'}, s.Paired r r' → g (t.root r) = g r := by
      intro r r' hp
      obtain ⟨hr, -⟩ | ⟨hr, -⟩ | ⟨⟨hr, hr₁⟩, -⟩ := h.cases hp
      · rw [hm.root_of_left h hr]
        obtain heq | heq := hm.top_eq <;> obtain rfl | rfl := hr <;> rw [heq]
        · exact hab
        · exact hab.symm
      · rw [hm.root_of_right h hr]
        obtain heq | heq := hm.top_eq' <;> obtain rfl | rfl := hr <;> rw [heq]
        · exact hab'
        · exact hab'.symm
      · rw [hm.root_of_neither hp hr hr₁]
    refine ⟨g, fun w hw => ?_⟩
    have hw' := hm.knows.mp hw
    have hp := hs.paired w hw'
    rw [hm.classOf hs hw', hm.rival h hs hw', hsame hp, hsame hp.symm]
    exact hg w hw'

end Merged

end CombinatorNet.ColorClasses
