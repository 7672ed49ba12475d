import CombinatorNet.Proofs.Coloring.Alike

/-!
# Batches are atomic

Whether a log is kept makes no difference to the nodes, the index and the order that a call leaves,
nor to its answer. So a batch that is accepted leaves just what its sides leave when they are
attached one after the other, and as no log is kept between calls, a batch that is refused leaves
just what was there before.

## Main results

* `ColorClasses.attachEach_dropLog` — attaching sides without a log does the same to the forest
* `ColorClasses.dropLog_replay` — no log is kept between calls
* `attachAll_atomic` — a batch is attached as a whole or not at all
-/

namespace CombinatorNet

namespace ColorClasses

variable {s : ColorClasses}

/-! ### Steps without a log -/

@[simp] theorem node_dropLog (s : ColorClasses) (x : Nat) : s.dropLog.node x = s.node x := rfl

@[simp] theorem save_dropLog (s : ColorClasses) (i : Nat) : s.dropLog.save i = s.dropLog := rfl

@[simp] theorem dropLog_save (s : ColorClasses) (i : Nat) : (s.save i).dropLog = s.dropLog := by
  unfold save
  split <;> rfl

@[simp] theorem dropLog_modifyNode (s : ColorClasses) (i : Nat) (f : ClassNode → ClassNode) :
    (s.modifyNode i f).dropLog = s.dropLog.modifyNode i f := rfl

@[simp] theorem dropLog_dropLog (s : ColorClasses) : s.dropLog.dropLog = s.dropLog := rfl

@[simp] theorem root_dropLog (s : ColorClasses) (x : Nat) : s.dropLog.root x = s.root x := by
  have hclimb : ∀ steps x, s.dropLog.climb steps x = s.climb steps x := by
    intro steps
    induction steps with
    | zero => exact fun _ => rfl
    | succ steps ih =>
      intro x
      rw [climb, climb, node_dropLog, ih]
  exact hclimb _ x

theorem register_dropLog (s : ColorClasses) (w : String) :
    s.dropLog.register w = ((s.register w).1, (s.register w).2.dropLog) := by
  cases hw : s.index.get? w with
  | some i =>
    have hw' : s.dropLog.index.get? w = some i := hw
    rw [register, register, hw, hw']
  | none =>
    have hw' : s.dropLog.index.get? w = none := hw
    rw [register, register, hw, hw']
    rfl

theorem shorten_dropLog (s : ColorClasses) (root steps x : Nat) :
    s.dropLog.shorten root steps x = (s.shorten root steps x).dropLog := by
  induction steps generalizing s x with
  | zero => rfl
  | succ steps ih =>
    rw [shorten, shorten, node_dropLog]
    split
    · rfl
    · rw [← ih, dropLog_modifyNode, dropLog_save, save_dropLog]

theorem find_dropLog (s : ColorClasses) (x : Nat) :
    s.dropLog.find x = ((s.find x).1, (s.find x).2.dropLog) := by
  rw [find, root_dropLog, shorten_dropLog]
  rfl

theorem oppose_dropLog (s : ColorClasses) (a b : Nat) :
    s.dropLog.oppose a b = (s.oppose a b).dropLog := by
  simp only [oppose, save_dropLog, dropLog_modifyNode, dropLog_save]

theorem join_dropLog (s : ColorClasses) (a b : Nat) :
    s.dropLog.join a b = ((s.join a b).1, (s.join a b).2.dropLog) := by
  rw [join, join]
  split
  · rfl
  · rw [node_dropLog, find_dropLog]
    generalize s.find (s.node a).opposite = found
    obtain ⟨other, t⟩ := found
    simp only [node_dropLog]
    split
    · rfl
    · simp only [save_dropLog, dropLog_save, dropLog_modifyNode, node_dropLog, node_save]
      rfl

theorem merge_dropLog (s : ColorClasses) (fault : ColorFault) (a b c d : Nat) :
    s.dropLog.merge fault a b c d =
      ((s.merge fault a b c d).1, (s.merge fault a b c d).2.dropLog) := by
  rw [merge, merge, join_dropLog]
  generalize s.join a b = first
  obtain ⟨_ | top, t⟩ := first
  · rfl
  · simp only [join_dropLog]
    generalize t.join c d = second
    obtain ⟨_ | top', u⟩ := second
    · rfl
    · simp only [oppose_dropLog]

/-! ### Calls without a log -/

theorem survey_dropLog (s : ColorClasses) (a b : String) :
    s.dropLog.survey a b =
      { s.survey a b with
        met := (s.survey a b).met.dropLog
        looked := (s.survey a b).looked.dropLog } := by
  simp only [survey, register_dropLog, find_dropLog, node_dropLog]

theorem differ_dropLog (s : ColorClasses) (a b : String) :
    s.dropLog.differ a b = ((s.differ a b).1, (s.differ a b).2.dropLog) := by
  simp only [differ_eq_survey, survey_dropLog, merge_dropLog]
  split <;> rfl

theorem agree_dropLog (s : ColorClasses) (a b : String) :
    s.dropLog.agree a b = ((s.agree a b).1, (s.agree a b).2.dropLog) := by
  simp only [agree_eq_survey, survey_dropLog, merge_dropLog]
  split <;> rfl

theorem attach_dropLog (s : ColorClasses) (side : List String) :
    s.dropLog.attach side = ((s.attach side).1, (s.attach side).2.dropLog) := by
  match side with
  | [] => rfl
  | [w] => rw [attach, register_dropLog]; rfl
  | [a, b] => exact differ_dropLog s a b
  | _ :: _ :: _ :: _ => rfl

/-- Attaching sides one after the other does not depend on a log. -/
theorem attachEach_dropLog (s : ColorClasses) (sides : List (List String)) :
    s.dropLog.attachEach sides = ((s.attachEach sides).1, (s.attachEach sides).2.dropLog) := by
  induction sides generalizing s with
  | nil => rfl
  | cons side sides ih =>
    rw [attachEach, attachEach, attach_dropLog]
    generalize s.attach side = first
    obtain ⟨_ | _, t⟩ := first
    · rfl
    · exact ih t

/-- Without a log, a batch is answered like its sides one after the other. -/
theorem fst_attachAll_eq (h : s.dropLog = s) (sides : List (List String)) :
    (s.attachAll sides).1 = (s.attachEach sides).1 := by
  have hstart : s.startLog.dropLog = s := h
  rw [fst_attachAll, ← hstart, attachEach_dropLog]
  rfl

/-- Without a log, a batch that is accepted leaves what its sides leave one after the other. -/
theorem snd_attachAll_eq (h : s.dropLog = s) {sides : List (List String)}
    (hok : (s.attachAll sides).1 = .ok ()) : (s.attachAll sides).2 = (s.attachEach sides).2 := by
  have hstart : s.startLog.dropLog = s := h
  have heach := attachEach_dropLog s.startLog sides
  rw [hstart] at heach
  rw [snd_attachAll hok, heach]

/-- A call to a forest without a log leaves one without a log. -/
theorem dropLog_answer (h : s.dropLog = s) (call : ColorCall) :
    (s.answer call).2.dropLog = (s.answer call).2 := by
  -- What a step leaves without a log is what it leaves here, as there is none to begin with.
  have hstays : ∀ {r : Except ColorFault Unit × ColorClasses}, r = (r.1, r.2.dropLog) →
      r.2.dropLog = r.2 := fun hr => (congrArg Prod.snd hr).symm
  cases call with
  | attach side => exact hstays (h ▸ attach_dropLog s side)
  | attachAll sides =>
    rw [answer]
    by_cases hok : (s.attachAll sides).1 = .ok ()
    · rw [snd_attachAll hok, dropLog_dropLog]
    · rw [attachAll_eq_dropLog s sides hok, dropLog_dropLog]
  | paint w color => exact hstays (h ▸ differ_dropLog s w color.other.channel)
  | differ a b => exact hstays (h ▸ differ_dropLog s a b)
  | agree a b => exact hstays (h ▸ agree_dropLog s a b)

/-- No log is kept between calls. -/
theorem dropLog_replay (calls : List ColorCall) : (replay calls).1.dropLog = (replay calls).1 := by
  induction calls using List.reverseRecOn with
  | nil => rfl
  | append_singleton calls call ih =>
    have hlog := dropLog_answer ih call
    rw [replay, List.foldl_append, ← replay, List.foldl_cons, List.foldl_nil, replayCall]
    generalize (replay calls).1.answer call = answer at hlog
    obtain ⟨_ | _, t⟩ := answer <;> exact hlog

/-- Sides that are all accepted can be attached by a call each. -/
theorem foldl_replayCall_attach {constraints : List Constraint} {sides : List (List String)}
    (hok : (s.attachEach sides).1 = .ok ()) :
    (sides.map ColorCall.attach).foldl replayCall (s, constraints) =
      ((s.attachEach sides).2, constraints ++ sides.flatMap sideDemands) := by
  induction sides generalizing s constraints with
  | nil => rw [List.flatMap_nil, List.append_nil]; rfl
  | cons side sides ih =>
    rw [attachEach] at hok ⊢
    rw [List.map_cons, List.foldl_cons, replayCall, answer]
    generalize s.attach side = first at hok
    obtain ⟨_ | _, t⟩ := first
    · cases hok
    · rw [List.flatMap_cons, ← List.append_assoc]
      exact ih hok

end ColorClasses

open ColorClasses

/-- After any calls no log is kept, and a batch of sides is answered like the sides one after the
other. If it is refused, the forest is left as it was: the same nodes, the same index and the same
order. If it is accepted, the forest is the one that is left by the sides one after the other, or by
a call for each of them. -/
theorem attachAll_atomic (calls : List ColorCall) (sides : List (List String)) :
    let s := (replay calls).1
    (s.attachAll sides).1 = (s.attachEach sides).1 ∧ (s.attachAll sides).2.log = none ∧
      ((s.attachAll sides).1 ≠ .ok () → (s.attachAll sides).2 = s) ∧
      ((s.attachAll sides).1 = .ok () → (s.attachAll sides).2 = (s.attachEach sides).2 ∧
        replay (calls ++ [.attachAll sides]) = replay (calls ++ sides.map .attach)) := by
  intro s
  have hlog : s.dropLog = s := dropLog_replay calls
  have hanswer := fst_attachAll_eq hlog sides
  have hafter : (s.attachAll sides).2.dropLog = (s.attachAll sides).2 :=
    dropLog_answer hlog (.attachAll sides)
  refine ⟨hanswer, congrArg log hafter.symm, fun hno => ?_, fun hok => ?_⟩
  · rw [attachAll_eq_dropLog s sides hno, hlog]
  · have hsides := snd_attachAll_eq hlog hok
    refine ⟨hsides, ?_⟩
    have hbatch : s.answer (.attachAll sides) = (.ok (), (s.attachEach sides).2) :=
      Prod.ext hok hsides
    rw [replay, replay, List.foldl_append, List.foldl_append, ← replay]
    rw [List.foldl_cons, List.foldl_nil, replayCall, hbatch]
    exact (foldl_replayCall_attach (hanswer.symm.trans hok)).symm

/-- Of two batches that both make the new bell differ from the fan, one demands as well that the fan
differs from the key, with which it agrees. -/
theorem attachAll_atomic_bell :
    let calls : List ColorCall := [.attach ["lamp", "key"], .agree "fan" "key"]
    let s := (replay calls).1
    ((s.attachAll [["bell", "fan"], ["fan", "key"]]).1 ≠ .ok () ∧
        (s.attachAll [["bell", "fan"], ["fan", "key"]]).2 = s) ∧
      (s.attachAll [["bell", "fan"], ["lamp", "fan"]]).1 = .ok () ∧
        replay (calls ++ [.attachAll [["bell", "fan"], ["lamp", "fan"]]]) =
          replay (calls ++ [.attach ["bell", "fan"], .attach ["lamp", "fan"]]) := by
  intro calls s
  have hno : (s.attachAll [["bell", "fan"], ["fan", "key"]]).1 ≠ .ok () := by decide
  have hok : (s.attachAll [["bell", "fan"], ["lamp", "fan"]]).1 = .ok () := by decide
  obtain ⟨-, -, hrefused, -⟩ := attachAll_atomic calls [["bell", "fan"], ["fan", "key"]]
  obtain ⟨-, -, -, haccepted⟩ := attachAll_atomic calls [["bell", "fan"], ["lamp", "fan"]]
  exact ⟨⟨hno, hrefused hno⟩, hok, (haccepted hok).2⟩

end CombinatorNet
