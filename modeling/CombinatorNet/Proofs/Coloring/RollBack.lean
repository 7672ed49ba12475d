import CombinatorNet.Proofs.Coloring.Demands

/-!
# Taking a batch back

While a log is kept, every node is written to the log before it is changed, so writing the log back
restores the nodes that were there when it was started. Later wires bring later nodes, which are
dropped. A batch of sides that is refused therefore leaves the forest as it was.

## Main definitions

* `ColorClasses.Undoable` — rolling back leads to a certain forest

## Main results

* `ColorClasses.Undoable.attachEach` — attaching sides can be undone
* `ColorClasses.attachAll_eq_dropLog` — a batch that is refused changes nothing
* `ColorClasses.settles_attachAll` — how a batch is answered
-/

namespace CombinatorNet.ColorClasses

variable {s s₀ t : ColorClasses} {i n : Nat} {log : List (Nat × ClassNode)}

/-! ### Writing a log back -/

/-- The nodes with those among the first `n` restored that a log holds. -/
def restore (n : Nat) (log : List (Nat × ClassNode)) (nodes : Array ClassNode) :
    Array ClassNode :=
  log.foldl (fun all e => if e.1 < n then all.setIfInBounds e.1 e.2 else all) nodes

/-- Of a node that the log holds, the last write counts, whatever the node was before. -/
private theorem restore_congr {xs ys : Array ClassNode} (hxs : n ≤ xs.size) (hys : n ≤ ys.size)
    (h : ∀ j < n, j ∉ log.map Prod.fst → xs[j]? = ys[j]?) :
    ∀ j < n, (restore n log xs)[j]? = (restore n log ys)[j]? := by
  -- By induction on the log: with each write, both arrays agree on one more node.
  induction log generalizing xs ys with
  | nil => exact fun j hj => h j hj (by simp)
  | cons e log ih =>
    simp only [restore, List.foldl_cons] at ih ⊢
    split
    · refine ih (by simpa using hxs) (by simpa using hys) fun j hj hmem => ?_
      by_cases hje : e.1 = j
      · subst hje
        rw [Array.getElem?_setIfInBounds_self_of_lt (by omega),
          Array.getElem?_setIfInBounds_self_of_lt (by omega)]
      · rw [Array.getElem?_setIfInBounds_ne hje, Array.getElem?_setIfInBounds_ne hje]
        refine h j hj fun hmem' => ?_
        obtain heq | hmem' := List.mem_cons.mp hmem'
        · exact hje heq.symm
        · exact hmem hmem'
    · next he =>
      refine ih hxs hys fun j hj hmem => h j hj fun hmem' => ?_
      obtain heq | hmem' := List.mem_cons.mp hmem'
      · exact he (heq ▸ hj)
      · exact hmem hmem'

private theorem get?_foldl_erase (ws : List String) (m : NameMap Nat) (k : String) :
    (ws.foldl (fun m wire => m.erase wire) m).get? k = if k ∈ ws then none else m.get? k := by
  induction ws generalizing m with
  | nil => simp
  | cons w ws ih =>
    rw [List.foldl_cons, ih, NameMap.get?_erase]
    by_cases hk : k ∈ ws
    · rw [if_pos hk, if_pos (List.mem_cons_of_mem w hk)]
    · rw [if_neg hk]
      by_cases hw : k = w <;> simp [hw, hk]

/-! ### What can be undone -/

/-- The node stands in the log. -/
private def Logged (s : ColorClasses) (i : Nat) : Prop :=
  ∃ log, s.log = some log ∧ i ∈ log.map Prod.fst

/-- Rolling back from `s` leads to the nodes, the index and the order of `s₀`. -/
structure Undoable (s₀ s : ColorClasses) : Prop where
  isSome_log : s.log.isSome
  size_le : s₀.nodes.size ≤ s.nodes.size
  nodes : ∀ i < s₀.nodes.size,
    (restore s₀.nodes.size (s.log.getD []) s.nodes)[i]? = s₀.nodes[i]?
  met : ∃ new, s.order.toList = s₀.order.toList ++ new ∧
    new.foldl (fun m wire => m.erase wire) s.index = s₀.index

theorem undoable_startLog (s : ColorClasses) : Undoable s s.startLog :=
  ⟨rfl, Nat.le_refl _, fun _ _ => rfl, [], by simp [startLog], rfl⟩

theorem Undoable.rollBack (h : Undoable s₀ s) :
    s.rollBack s₀.nodes.size s₀.order.size = s₀.dropLog := by
  obtain ⟨new, horder, hindex⟩ := h.met
  have hlen : s₀.order.size = s₀.order.toList.length := Array.length_toList.symm
  have hnodes : (restore s₀.nodes.size (s.log.getD []) s.nodes).take s₀.nodes.size = s₀.nodes := by
    refine Array.ext_getElem? fun i => ?_
    by_cases hi : i < s₀.nodes.size
    · obtain ⟨hlt, -⟩ :=
        Array.getElem?_eq_some_iff.mp ((h.nodes i hi).trans (Array.getElem?_eq_getElem hi))
      rw [Array.take_eq_extract, Array.getElem?_extract, if_pos (by omega), Nat.zero_add,
        h.nodes i hi]
    · rw [Array.take_eq_extract, Array.getElem?_extract, if_neg (by omega),
        Array.getElem?_eq_none (by omega)]
  -- The wires met since are the last ones in the order.
  have hnames : s.order.take s₀.order.size = s₀.order := by
    refine Array.toList_inj.mp ?_
    rw [Array.take_eq_extract, Array.toList_extract, horder, hlen, List.extract_eq_take_drop]
    simp
  rw [ColorClasses.rollBack, dropLog, horder, hnames, hlen, List.drop_left, hindex]
  exact congrArg (fun nodes => (⟨nodes, s₀.index, s₀.order, none⟩ : ColorClasses)) hnodes

/-! ### Every step can be undone -/

private theorem restore_self (s : ColorClasses) (i : Nat) :
    s.nodes.setIfInBounds i (s.node i) = s.nodes := by
  refine Array.ext_getElem? fun j => ?_
  rw [Array.getElem?_setIfInBounds]
  by_cases hj : i = j
  · subst hj
    by_cases hi : i < s.nodes.size
    · simp [node, hi]
    · simp [hi]
  · rw [if_neg hj]

private theorem Undoable.save (h : Undoable s₀ s) (i : Nat) :
    Undoable s₀ (s.save i) ∧ (s.save i).Logged i := by
  -- Writing the node back at once restores nothing new, so the older entries still count.
  obtain ⟨log, hlog⟩ := Option.isSome_iff_exists.mp h.isSome_log
  have hsave : s.save i = { s with log := some ((i, s.node i) :: log) } := by
    rw [ColorClasses.save, hlog]
  rw [hsave]
  refine ⟨⟨rfl, h.size_le, fun j hj => ?_, h.met⟩, _, rfl, by simp⟩
  have hj' := h.nodes j hj
  rw [hlog] at hj'
  rw [← hj']
  simp only [restore, Option.getD_some, List.foldl_cons, restore_self, ite_self]

private theorem Logged.save (h : s.Logged i) (j : Nat) : (s.save j).Logged i := by
  obtain ⟨log, hlog, hi⟩ := h
  rw [ColorClasses.save, hlog]
  exact ⟨_, rfl, List.mem_cons_of_mem _ hi⟩

/-- A node in the log may be changed. -/
private theorem Undoable.modifyNode (h : Undoable s₀ s) (hi : s.Logged i)
    (f : ClassNode → ClassNode) : Undoable s₀ (s.modifyNode i f) := by
  obtain ⟨log, hlog, hi⟩ := hi
  refine ⟨h.isSome_log, by simpa using h.size_le, fun j hj => ?_, h.met⟩
  have hj' := h.nodes j hj
  rw [hlog] at hj'
  rw [← hj', ColorClasses.modifyNode, hlog]
  refine restore_congr (by simpa using h.size_le) h.size_le (fun k _ hk => ?_) j hj
  rw [Array.getElem?_modify, if_neg]
  rintro rfl
  exact hk hi

private theorem Logged.modifyNode (h : s.Logged i) (j : Nat) (f : ClassNode → ClassNode) :
    (s.modifyNode j f).Logged i := h

private theorem Undoable.register (h : Undoable s₀ s) (w : String) :
    Undoable s₀ (s.register w).2 := by
  rw [ColorClasses.register]
  split
  · exact h
  · next hw =>
    obtain ⟨new, horder, hindex⟩ := h.met
    -- The wire is new, so it was not there before either, and is dropped with its nodes.
    have hw₀ : s₀.index.get? w = none := by
      rw [← hindex, get?_foldl_erase, hw, ite_self]
    refine ⟨h.isSome_log, ?_, fun j hj => ?_, new ++ [w], by simp [horder], ?_⟩
    · simpa using h.size_le.trans (by omega)
    · rw [← h.nodes j hj]
      refine restore_congr (by simpa using h.size_le.trans (by omega)) h.size_le
        (fun k hk _ => ?_) j hj
      have hk' := Nat.lt_of_lt_of_le hk h.size_le
      rw [Array.getElem?_push_lt (by simp; omega), Array.getElem_push_lt hk',
        Array.getElem?_eq_getElem hk']
    · refine NameMap.ext_get? fun k => ?_
      rw [← hindex, get?_foldl_erase, get?_foldl_erase, NameMap.get?_insert]
      by_cases hk : k = w
      · subst hk
        simp [hw]
      · simp [hk]

private theorem Undoable.shorten (h : Undoable s₀ s) (root steps x : Nat) :
    Undoable s₀ (s.shorten root steps x) := by
  induction steps generalizing s x with
  | zero => exact h
  | succ steps ih =>
    rw [ColorClasses.shorten]
    split
    · exact h
    · exact ih ((h.save x).1.modifyNode (h.save x).2 _) _

private theorem Undoable.find (h : Undoable s₀ s) (x : Nat) : Undoable s₀ (s.find x).2 :=
  h.shorten _ _ _

private theorem Undoable.oppose (h : Undoable s₀ s) (a b : Nat) : Undoable s₀ (s.oppose a b) := by
  obtain ⟨ha, hlog⟩ := h.save a
  obtain ⟨hb, hlog'⟩ := ha.save b
  exact (hb.modifyNode (hlog.save b) _).modifyNode (hlog'.modifyNode a _) _

private theorem Undoable.join (h : Undoable s₀ s) (a b : Nat) : Undoable s₀ (s.join a b).2 := by
  rw [ColorClasses.join]
  split
  · exact h
  · have hfind := h.find (s.node a).opposite
    generalize s.find (s.node a).opposite = found at hfind
    obtain ⟨other, t⟩ := found
    simp only at hfind ⊢
    split
    · exact hfind
    · -- Both roots are written to the log before either is changed.
      generalize (if (t.node a).size < (t.node b).size then (b, a) else (a, b)) = ends
      obtain ⟨hsmall, hlog⟩ := hfind.save ends.2
      obtain ⟨hlarge, hlog'⟩ := hsmall.save ends.1
      exact (hlarge.modifyNode (hlog.save ends.1) _).modifyNode (hlog'.modifyNode ends.2 _) _

private theorem Undoable.merge (h : Undoable s₀ s) (fault : ColorFault) (a b c d : Nat) :
    Undoable s₀ (s.merge fault a b c d).2 := by
  have hfirst := h.join a b
  rw [ColorClasses.merge]
  generalize s.join a b = first at hfirst
  obtain ⟨_ | top, t⟩ := first
  · exact hfirst
  · have hsecond := hfirst.join c d
    simp only at hsecond ⊢
    generalize t.join c d = second at hsecond
    obtain ⟨_ | top', u⟩ := second
    · exact hsecond
    · exact hsecond.oppose top top'

private theorem Undoable.differ (h : Undoable s₀ s) (a b : String) :
    Undoable s₀ (s.differ a b).2 := by
  have hmet := (h.register a).register b
  have hfound : Undoable s₀ (s.survey a b).met :=
    (hmet.find (s.register a).1).find ((s.register a).2.register b).1
  have hlooked : Undoable s₀ (s.survey a b).looked := (hfound.find _).find _
  rw [differ_eq_survey]
  split
  · exact hfound
  · exact hlooked.merge (.conflict a b) _ _ _ _

private theorem Undoable.attach (h : Undoable s₀ s) (side : List String) :
    Undoable s₀ (s.attach side).2 := by
  match side with
  | [] => exact h
  | [w] => exact h.register w
  | [a, b] => exact h.differ a b
  | _ :: _ :: _ :: _ => exact h

/-- Attaching sides can be undone. -/
theorem Undoable.attachEach (h : Undoable s₀ s) (sides : List (List String)) :
    Undoable s₀ (s.attachEach sides).2 := by
  induction sides generalizing s with
  | nil => exact h
  | cons side sides ih =>
    have hside := h.attach side
    rw [ColorClasses.attachEach]
    generalize s.attach side = first at hside
    obtain ⟨_ | _, t⟩ := first
    · exact hside
    · exact ih hside

/-! ### Batches -/

/-- A batch that is refused leaves the forest as it was. -/
theorem attachAll_eq_dropLog (s : ColorClasses) (sides : List (List String))
    (h : (s.attachAll sides).1 ≠ .ok ()) : (s.attachAll sides).2 = s.dropLog := by
  have hundo := (undoable_startLog s).attachEach sides
  rw [attachAll] at h ⊢
  generalize s.startLog.attachEach sides = result at h hundo
  obtain ⟨_ | _, t⟩ := result
  · exact hundo.rollBack
  · exact absurd rfl h

/-- The log plays no part in what a forest says. -/
theorem shortened_of_log (h : Forest s) (hnodes : t.nodes = s.nodes)
    (hindex : t.index = s.index) (horder : t.order = s.order) : Shortened s t := by
  have hnode : ∀ x, t.node x = s.node x := fun x => by rw [node, hnodes, node]
  have hsize : t.nodes.size = s.nodes.size := by rw [hnodes]
  have hparent : ∀ x, (t.node x).parent = (s.node x).parent := fun x => by rw [hnode]
  exact ⟨h.of_parent_eq hsize hparent, hsize, fun x hx => h.root_of_parent_eq hsize hparent hx,
    fun x => by rw [hnode], hindex, horder⟩

/-- A batch is accepted if some coloring of the forest makes the wires of every side differ. -/
theorem settles_attachAll (h : Valid s) (sides : List (List String)) :
    Settles s (s.attachAll sides) (∀ side ∈ sides, side.length ≤ 2)
      (sides.flatMap sideDemands) := by
  -- Starting and dropping a log changes nothing, so a batch is answered like its sides.
  have hstart : Shortened s s.startLog := shortened_of_log h.forest rfl rfl rfl
  have hdrop : Shortened s s.dropLog := shortened_of_log h.forest rfl rfl rfl
  have heach := decides_attachEach (hstart.valid h) sides
  have hundo := attachAll_eq_dropLog s sides
  rw [attachAll] at hundo ⊢
  generalize s.startLog.attachEach sides = result at heach hundo
  obtain ⟨e | _, t⟩ := result
  · -- A batch that is refused is taken back as a whole.
    have hsame : (t.rollBack s.nodes.size s.order.size) = s.dropLog := hundo (by simp)
    simp only [hsame]
    refine ⟨⟨hdrop.valid h, fun w hw => hdrop.knows.mpr hw, List.prefix_refl _, fun hok => ?_,
      fun _ hfits f hf => ?_⟩, fun _ f => hdrop.respects h⟩
    · cases hok
    · exact heach.refuses (by simp) hfits f ((hstart.respects h).mpr hf)
  · have hdrop' : Shortened t t.dropLog := shortened_of_log heach.valid.forest rfl rfl rfl
    obtain ⟨hfits, hknown, hrespects⟩ := heach.accepts rfl
    refine ⟨⟨hdrop'.valid heach.valid, fun w hw => ?_, heach.order,
      fun _ => ⟨hfits, fun c hc w hw => ?_, fun f => ?_⟩, fun hno => absurd rfl hno⟩,
      fun hno => absurd rfl hno⟩
    · exact hdrop'.knows.mpr (heach.knows w (hstart.knows.mpr hw))
    · exact hdrop'.knows.mpr (hknown c hc w hw)
    · rw [hdrop'.respects heach.valid, hrespects, hstart.respects h]

end CombinatorNet.ColorClasses
