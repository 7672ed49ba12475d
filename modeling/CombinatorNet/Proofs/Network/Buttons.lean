import CombinatorNet.Proofs.Network.Wiring

/-!
# Buttons

A button writes its signals in a tick if it is on, and a pulse is off afterwards. So what a button
writes is told by the requests that have switched it: for a toggle by the last one of them all, and
for a pulse by the last one since the latest tick, if there is one.

## Main definitions

* `Since` — something happened, and has been kept up to now
* `NetworkCall.switched?`, `Network.switchAt` — the state in which a request leaves a button
* `Network.HeldFrom`, `Network.Releases` — a request has switched a button on, and nothing has
  changed this until a tick
* `Network.StartsOff` — no button is on before a request switches it

## Main results

* `Network.nodes_serve_cases` — what a request makes of a combinator
* `Network.tracks` — the state of a button is told by the requests so far
* `Network.buttons_follow_switches` — what buttons write in a tick
-/

namespace CombinatorNet

/-! ### Since something happened -/

/-- At an earlier position something happened, and all positions from there up to now keep it. -/
def Since (kept happens : Nat → Prop) (now : Nat) : Prop :=
  ∃ p < now, happens p ∧ ∀ r, p < r → r < now → kept r

theorem not_since_of_forall {kept happens : Nat → Prop} {now : Nat} (h : ∀ p < now, ¬ happens p) :
    ¬ Since kept happens now :=
  fun ⟨p, hp, hhappens, _⟩ => h p hp hhappens

/-- One position further, it happened just now, or was kept just now. -/
theorem since_succ {kept happens : Nat → Prop} {now : Nat} :
    Since kept happens (now + 1) ↔ happens now ∨ kept now ∧ Since kept happens now := by
  constructor
  · rintro ⟨p, hp, hhappens, hkept⟩
    rcases Nat.lt_succ_iff_lt_or_eq.mp hp with hlt | rfl
    · exact .inr ⟨hkept now hlt (Nat.lt_succ_self now), p, hlt, hhappens,
        fun r hr hnow => hkept r hr (Nat.lt_succ_of_lt hnow)⟩
    · exact .inl hhappens
  · rintro (hhappens | ⟨hnow, p, hp, hhappens, hkept⟩)
    · exact ⟨now, Nat.lt_succ_self now, hhappens, fun r hr hnow => by omega⟩
    · refine ⟨p, Nat.lt_succ_of_lt hp, hhappens, fun r hr hlt => ?_⟩
      rcases Nat.lt_succ_iff_lt_or_eq.mp hlt with hlt | rfl
      · exact hkept r hr hlt
      · exact hnow

/-! ### Switching one button -/

/-- The state in which a request leaves a button, if it switches this button and is served. -/
def NetworkCall.switched? (index : Nat) :
    NetworkCall → Except NetworkError NetworkAnswer → Option Bool
  | .setActive i active, .ok _ => if i = index then some active else none
  | .toggleActive i, .ok (.switched active) => if i = index then some active else none
  | _, _ => none

namespace Combinator

/-- A combinator after a request that may have switched it. -/
def switch (c : Combinator) : Option Bool → Combinator
  | none => c
  | some active => c.setActive active

/-- Whether a tick leaves a button on. -/
def staysOn : Combinator → Bool
  | pulse _ _ => false
  | _ => true

/-- Whether a combinator is no button that is on. -/
def StartsOff (c : Combinator) : Prop := c.active? ≠ some true

theorem staysOn_switch (c : Combinator) (s : Option Bool) : (c.switch s).staysOn = c.staysOn := by
  cases s <;> cases c <;> rfl

/-- A button is left in the state that it was switched to. -/
theorem active?_switch (c : Combinator) (s : Option Bool) :
    (c.switch s).active? = c.active?.map fun active => s.getD active := by
  cases s <;> cases c <;> rfl

end Combinator

theorem Node.staysOn_step (state : WireState) (node : Node) :
    (node.step state).combinator.staysOn = node.combinator.staysOn := by
  obtain ⟨c, inputs, outputs, span, lastOutput⟩ := node
  cases c <;> rfl

/-- A tick switches pulses off. -/
theorem Node.active?_step (state : WireState) (node : Node) :
    (node.step state).combinator.active? =
      node.combinator.active?.map (· && node.combinator.staysOn) := by
  obtain ⟨c, inputs, outputs, span, lastOutput⟩ := node
  cases c <;> simp [step, Combinator.next, Combinator.active?, Combinator.staysOn]

/-- What a combinator has written is `values` if a condition holds, and nothing else. -/
def Node.WritesIf (node : Node) (values : SignalSet) (P : Prop) : Prop :=
  (P → node.lastOutput = values) ∧ (¬ P → node.lastOutput = ∅)

/-- A toggle writes its signals in a tick if it was on before, and so it is on after it. -/
theorem Node.writesIf_of_step_toggle {state : WireState} {node : Node} {values : SignalSet}
    {active : Bool} (h : (node.step state).combinator = .toggle values active) :
    node.combinator = .toggle values active ∧ (node.step state).WritesIf values (active = true) := by
  obtain ⟨c, inputs, outputs, span, lastOutput⟩ := node
  cases c <;> simp only [step, Combinator.next, reduceCtorEq] at h
  cases h
  cases active <;> simp [WritesIf, step, Combinator.output]

/-- A pulse writes its signals in a tick if it was on before. -/
theorem Node.writesIf_of_step_pulse {state : WireState} {node : Node} {values : SignalSet}
    {active : Bool} (h : (node.step state).combinator = .pulse values active) :
    ∃ before, node.combinator = .pulse values before ∧
      (node.step state).WritesIf values (before = true) := by
  obtain ⟨c, inputs, outputs, span, lastOutput⟩ := node
  cases c <;> simp only [step, Combinator.next, reduceCtorEq] at h
  case pulse values before =>
    cases h
    refine ⟨before, rfl, ?_⟩
    cases before <;> simp [WritesIf, step, Combinator.output]

namespace Network

variable {n m : Network} {call : NetworkCall} {index : Nat}

theorem exists_button_of_setActive {active : Bool} (h : n.setActive index active = .ok m)
    {i : Nat} {node' : Node} (hnode' : m.nodes[i]? = some node') :
    ∃ node, n.nodes[i]? = some node ∧
      node'.combinator = node.combinator.switch (if index = i then some active else none) := by
  obtain ⟨node, hnode, -, rfl⟩ := setActive_eq_ok h
  simp only [List.getElem?_set] at hnode'
  split at hnode'
  · next heq =>
    subst heq
    split at hnode'
    · cases hnode'
      exact ⟨node, hnode, by rw [if_pos rfl]; rfl⟩
    · cases hnode'
  · next hne => exact ⟨node', hnode', by rw [if_neg hne]; rfl⟩

/-- A combinator of the network after a request has been appended by it, has taken part in a tick,
or has been there before and may have been switched. -/
theorem nodes_serve_cases {node' : Node} (h : (n.serve call).2.nodes[index]? = some node') :
    (∃ inputs outputs span, call = .add node'.combinator inputs outputs span ∧
      n.nodes.length ≤ index) ∨
    ∃ node, n.nodes[index]? = some node ∧
      (call = .step ∧ node' = node.step n.state ∨
        call ≠ .step ∧
          node'.combinator = node.combinator.switch (call.switched? index (n.serve call).1)) := by
  cases call with
  | add c inputs outputs span =>
    rw [serve] at h
    rcases n.add_cases c inputs outputs span with ⟨_, -, heq⟩ | ⟨-, heq⟩ <;> rw [heq] at h
    · exact .inr ⟨node', h, .inr ⟨by simp, rfl⟩⟩
    · rcases Nat.lt_or_ge index n.nodes.length with hlt | hle
      · rw [List.getElem?_append_left hlt] at h
        exact .inr ⟨node', h, .inr ⟨by simp, rfl⟩⟩
      · rw [List.getElem?_append_right hle, List.getElem?_singleton] at h
        split at h
        · cases h
          exact .inl ⟨inputs, outputs, span, rfl, hle⟩
        · cases h
  | paint wire color span =>
    rw [serve] at h
    rcases n.paint_cases wire color span with ⟨_, -, heq⟩ | ⟨-, heq⟩ <;> rw [heq] at h <;>
      exact .inr ⟨node', h, .inr ⟨by simp, rfl⟩⟩
  | step =>
    rw [serve, nodes_step, List.getElem?_map, Option.map_eq_some_iff] at h
    obtain ⟨node, hnode, rfl⟩ := h
    exact .inr ⟨node, hnode, .inl ⟨rfl, rfl⟩⟩
  | setActive i active =>
    refine .inr ?_
    rw [serve] at h ⊢
    cases hset : n.setActive i active with
    | error e =>
      rw [hset] at h
      exact ⟨node', h, .inr ⟨by simp, rfl⟩⟩
    | ok m =>
      rw [hset] at h
      obtain ⟨node, hnode, hswitch⟩ := exists_button_of_setActive hset h
      exact ⟨node, hnode, .inr ⟨by simp, hswitch⟩⟩
  | toggleActive i =>
    refine .inr ?_
    rw [serve] at h ⊢
    cases htoggle : n.toggleActive i with
    | error e =>
      rw [htoggle] at h
      exact ⟨node', h, .inr ⟨by simp, rfl⟩⟩
    | ok r =>
      rw [htoggle] at h
      obtain ⟨node, hnode, hswitch⟩ := exists_button_of_setActive (toggleActive_eq_ok htoggle) h
      exact ⟨node, hnode, .inr ⟨by simp, hswitch⟩⟩
  | finalize =>
    obtain ⟨layout, heq⟩ := n.exists_serve_finalize
    rw [heq] at h
    exact .inr ⟨node', h, .inr ⟨by simp, rfl⟩⟩

/-- Only a button that exists is switched. -/
theorem lt_of_switched? {active : Bool}
    (h : call.switched? index (n.serve call).1 = some active) : index < n.nodes.length := by
  have hset : ∀ {i b m}, n.setActive i b = .ok m → i < n.nodes.length := by
    intro i b m hok
    obtain ⟨node, hnode, -⟩ := setActive_eq_ok hok
    exact (List.getElem?_eq_some_iff.mp hnode).1
  cases call with
  | add | paint | step | finalize => cases h
  | setActive i b =>
    rw [serve] at h
    cases hok : n.setActive i b with
    | error e => rw [hok] at h; cases h
    | ok m =>
      rw [hok] at h
      obtain ⟨rfl, -⟩ := Option.ite_none_right_eq_some.mp h
      exact hset hok
  | toggleActive i =>
    rw [serve] at h
    cases hok : n.toggleActive i with
    | error e => rw [hok] at h; cases h
    | ok r =>
      rw [hok] at h
      obtain ⟨rfl, -⟩ := Option.ite_none_right_eq_some.mp h
      exact hset (toggleActive_eq_ok hok)

theorem length_nodes_serve (n : Network) (call : NetworkCall) :
    n.nodes.length ≤ (n.serve call).2.nodes.length := by
  have hlength := (n.wiring_isPrefix_serve call).length_le
  rwa [wiring, wiring, List.length_map, List.length_map] at hlength

/-- Toggling a button yields the state it was not in. -/
theorem toggled_of_serve {answer : NetworkAnswer}
    (h : (n.serve (.toggleActive index)).1 = .ok answer) : ∃ node active,
      n.nodes[index]? = some node ∧ node.combinator.active? = some active ∧
        answer = .switched !active := by
  rw [serve, toggleActive] at h
  cases hnode : n.nodes[index]? with
  | none => rw [hnode] at h; cases h
  | some node =>
    rw [hnode] at h
    cases hactive : node.combinator.active? with
    | none => simp only [hactive] at h; cases h
    | some active =>
      simp only [hactive] at h
      cases hset : n.setActive index !active with
      | error e => rw [hset] at h; cases h
      | ok m =>
        rw [hset] at h
        cases h
        exact ⟨node, active, rfl, hactive, rfl⟩

/-! ### The history of a button -/

/-- The state in which the request at a position leaves a button, if it switches this button. -/
def switchAt (n : Network) (calls : List NetworkCall) (index p : Nat) : Option Bool :=
  (calls[p]?).bind fun call => call.switched? index ((n.serveAll (calls.take p)).serve call).1

/-- The request at `p` switches a button on, and no later one up to `now` switches it. -/
def HeldFrom (n : Network) (calls : List NetworkCall) (index p now : Nat) : Prop :=
  p < now ∧ n.switchAt calls index p = some true ∧
    ∀ r, p < r → r < now → n.switchAt calls index r = none

/-- The request at `p` switches a button on, the tick at `now` is the next one, and no request
between them switches the button. -/
def Releases (n : Network) (calls : List NetworkCall) (index p now : Nat) : Prop :=
  n.HeldFrom calls index p now ∧ calls[now]? = some .step ∧
    ∀ r, p < r → r < now → calls[r]? ≠ some .step

/-- The requests that leave a button as it is, if ticks do or do not. -/
def Keeps (n : Network) (calls : List NetworkCall) (index : Nat) (staysOn : Bool) (r : Nat) : Prop :=
  n.switchAt calls index r = none ∧ (staysOn = true ∨ calls[r]? ≠ some .step)

/-- What the first `now` requests have made of the buttons. -/
structure Tracks (n : Network) (calls : List NetworkCall) (now : Nat) : Prop where
  buttons : ∀ index node active, (n.serveAll (calls.take now)).nodes[index]? = some node →
    node.combinator.active? = some active →
    (active = true ↔ Since (n.Keeps calls index node.combinator.staysOn)
      (fun p => n.switchAt calls index p = some true) now)
  fresh : ∀ index, (n.serveAll (calls.take now)).nodes.length ≤ index →
    ∀ p < now, n.switchAt calls index p = none

theorem Tracks.succ {calls : List NetworkCall} {now : Nat} (h : n.Tracks calls now)
    (hcall : calls[now]? = some call)
    (hoff : ∀ c inputs outputs span, call = .add c inputs outputs span → c.StartsOff) :
    n.Tracks calls (now + 1) := by
  have hafter : n.serveAll (calls.take (now + 1)) =
      ((n.serveAll (calls.take now)).serve call).2 := by
    rw [List.take_add_one, hcall, serveAll_append]
    rfl
  have hswitch : ∀ index, n.switchAt calls index now =
      call.switched? index ((n.serveAll (calls.take now)).serve call).1 := fun index => by
    rw [switchAt, hcall]
    rfl
  constructor
  · intro index node' active' hnode' hactive'
    rw [hafter] at hnode'
    rw [since_succ, Keeps, hswitch, hcall]
    rcases nodes_serve_cases hnode' with ⟨inputs, outputs, span, rfl, hnew⟩ |
      ⟨node, hnode, ⟨rfl, rfl⟩ | ⟨hcall', heq⟩⟩
    · -- A new button is off, and no request has switched it yet.
      have hstart := hoff _ _ _ _ rfl
      have hnever : ¬ Since (n.Keeps calls index node'.combinator.staysOn)
          (fun p => n.switchAt calls index p = some true) now :=
        not_since_of_forall fun p hp hon => by rw [h.fresh index hnew p hp] at hon; cases hon
      rw [Combinator.StartsOff, hactive'] at hstart
      simpa [NetworkCall.switched?, hnever] using hstart
    · -- A tick switches no button, but it ends a pulse.
      rw [Node.active?_step] at hactive'
      obtain ⟨active, hactive, rfl⟩ := Option.map_eq_some_iff.mp hactive'
      have hbutton := h.buttons index node active hnode hactive
      have hnone : NetworkCall.switched? index .step
          ((n.serveAll (calls.take now)).serve .step).1 = none := rfl
      rw [Node.staysOn_step, ← hbutton, hnone]
      simp [and_comm]
    · -- Any other request switches the button, or leaves it on or off.
      rw [heq, Combinator.active?_switch] at hactive'
      obtain ⟨active, hactive, rfl⟩ := Option.map_eq_some_iff.mp hactive'
      have hbutton := h.buttons index node active hnode hactive
      rw [heq, Combinator.staysOn_switch, ← hbutton]
      cases call.switched? index ((n.serveAll (calls.take now)).serve call).1 with
      | none => simp [hcall']
      | some b => simp
  · intro index hindex p hp
    rw [hafter] at hindex
    have hbefore := (length_nodes_serve _ call).trans hindex
    rcases Nat.lt_succ_iff_lt_or_eq.mp hp with hlt | rfl
    · exact h.fresh index hbefore p hlt
    · rw [hswitch, Option.eq_none_iff_forall_ne_some]
      intro active hactive
      exact absurd (lt_of_switched? hactive) (Nat.not_lt_of_le hbefore)

/-- Where no button is on at first, its state is told by the requests so far. -/
theorem tracks {calls : List NetworkCall} (hn : ∀ node ∈ n.nodes, node.combinator.StartsOff)
    (hcalls : ∀ c inputs outputs span, .add c inputs outputs span ∈ calls → c.StartsOff)
    {now : Nat} (hnow : now ≤ calls.length) : n.Tracks calls now := by
  induction now with
  | zero =>
    refine ⟨fun index node active hnode hactive => ?_, nofun⟩
    have hstart := hn node (List.mem_of_getElem? hnode)
    rw [Combinator.StartsOff, hactive] at hstart
    refine iff_of_false (fun heq => hstart (congrArg some heq)) (not_since_of_forall nofun)
  | succ now ih =>
    have hcall := List.getElem?_eq_getElem hnow
    refine (ih (Nat.le_of_lt hnow)).succ hcall fun c inputs outputs span heq => ?_
    exact hcalls c inputs outputs span (heq ▸ List.getElem_mem hnow)

/-! ### What buttons write -/

theorem exists_heldFrom {calls : List NetworkCall} {now : Nat} :
    (∃ p, n.HeldFrom calls index p now) ↔
      Since (n.Keeps calls index true) (fun p => n.switchAt calls index p = some true) now := by
  simp [HeldFrom, Since, Keeps]

/-- Between a switch and the next tick nothing but a further switch changes a button. -/
theorem exists_releases {calls : List NetworkCall} {now : Nat} (h : calls[now]? = some .step) :
    (∃ p, n.Releases calls index p now) ↔
      Since (n.Keeps calls index false) (fun p => n.switchAt calls index p = some true) now := by
  constructor
  · rintro ⟨p, ⟨hp, hon, hnone⟩, -, hstep⟩
    exact ⟨p, hp, hon, fun r hr hnow => ⟨hnone r hr hnow, .inr (hstep r hr hnow)⟩⟩
  · rintro ⟨p, hp, hon, hkept⟩
    refine ⟨p, ⟨hp, hon, fun r hr hnow => (hkept r hr hnow).1⟩, h, fun r hr hnow => ?_⟩
    exact (hkept r hr hnow).2.resolve_left nofun

/-- Only one tick is the next one. -/
theorem Releases.unique {calls : List NetworkCall} {p q q' : Nat} (h : n.Releases calls index p q)
    (h' : n.Releases calls index p q') : q = q' := by
  rcases Nat.lt_trichotomy q q' with hlt | heq | hlt
  · exact absurd h.2.1 (h'.2.2 q h.1.1 hlt)
  · exact heq
  · exact absurd h'.2.1 (h.2.2 q' h'.1.1 hlt)

/-- Whether the buttons of a network start off, those that requests append included. -/
def StartsOff (n : Network) (calls : List NetworkCall) : Prop :=
  (∀ node ∈ n.nodes, node.combinator.StartsOff) ∧
    ∀ c inputs outputs span, .add c inputs outputs span ∈ calls → c.StartsOff

/-- In a tick, a toggle writes its signals exactly if the last request that switched it has switched
it on. A pulse does so exactly if one since the tick before has switched it, and the last of these
has switched it on; so a switch makes a pulse write in one tick at most. Toggling yields the
state that the button was not in. -/
theorem buttons_follow_switches {calls : List NetworkCall} (hoff : n.StartsOff calls) :
    (∀ now index, ∀ node : Node, calls[now]? = some .step →
      (n.serveAll (calls.take (now + 1))).nodes[index]? = some node →
      (∀ values active, node.combinator = .toggle values active →
        node.WritesIf values (∃ p, n.HeldFrom calls index p now)) ∧
      (∀ values active, node.combinator = .pulse values active →
        node.WritesIf values (∃ p, n.Releases calls index p now))) ∧
    (∀ index p q q', n.Releases calls index p q → n.Releases calls index p q' → q = q') ∧
    (∀ now index answer, calls[now]? = some (.toggleActive index) →
      ((n.serveAll (calls.take now)).serve (.toggleActive index)).1 = .ok answer →
      ∃ node active, (n.serveAll (calls.take now)).nodes[index]? = some node ∧
        node.combinator.active? = some active ∧ answer = .switched !active) := by
  refine ⟨fun now index node' hstep hnode' => ?_, fun _ _ _ _ => Releases.unique,
    fun _ _ _ _ => toggled_of_serve⟩
  have htracks := tracks hoff.1 hoff.2 (List.getElem?_eq_some_iff.mp hstep).1.le
  rw [List.take_add_one, hstep, serveAll_append] at hnode'
  obtain ⟨node, hnode, rfl⟩ := Option.map_eq_some_iff.mp
    ((List.getElem?_map ..).symm.trans (hnode' : (n.serveAll (calls.take now)).step.nodes[index]? = _))
  constructor
  · intro values active htoggle
    obtain ⟨hbefore, hwrites⟩ := Node.writesIf_of_step_toggle htoggle
    have hbutton := htracks.buttons index node active hnode (by rw [hbefore]; rfl)
    simp only [hbefore, Combinator.staysOn] at hbutton
    rwa [exists_heldFrom, ← hbutton]
  · intro values active hpulse
    obtain ⟨before, hbefore, hwrites⟩ := Node.writesIf_of_step_pulse hpulse
    have hbutton := htracks.buttons index node before hnode (by rw [hbefore]; rfl)
    simp only [hbefore, Combinator.staysOn] at hbutton
    rwa [exists_releases hstep, ← hbutton]

/-- A toggle and a pulse, both pressed before the first of two ticks, and a color in between. -/
def pressedOnce : List NetworkCall :=
  [.add (.toggle (.single "x" 3) false) [] ["A"] .nowhere,
    .add (.pulse (.single "x" 7) false) [] ["B"] .nowhere,
    .setActive 1 true, .toggleActive 0, .setActive 5 true, .step, .paint "A" .red .nowhere, .step]

theorem startsOff_pressedOnce : (empty {}).StartsOff pressedOnce := by
  refine ⟨List.forall_mem_nil _, fun c inputs outputs span h => ?_⟩
  simp only [pressedOnce, List.mem_cons, NetworkCall.add.injEq, reduceCtorEq, List.not_mem_nil,
    or_false] at h
  rcases h with ⟨rfl, -⟩ | ⟨rfl, -⟩ <;> nofun

theorem buttons_follow_switches_pressedOnce : (empty {}).StartsOff pressedOnce ∧
    ∃ toggle pulse released,
      ((empty {}).serveAll (pressedOnce.take 6)).nodes = [toggle, pulse] ∧
      ((empty {}).serveAll (pressedOnce.take 8)).nodes[1]? = some released ∧
      toggle.lastOutput = .single "x" 3 ∧ pulse.lastOutput = .single "x" 7 ∧
      released.lastOutput = ∅ := by
  refine ⟨startsOff_pressedOnce, _, _, _, rfl, rfl, ?_, ?_, ?_⟩
  · refine (((buttons_follow_switches startsOff_pressedOnce).1 5 0 _ rfl rfl).1 _ _ rfl).1 ?_
    refine ⟨3, by decide, rfl, fun r hr hnow => ?_⟩
    obtain rfl : r = 4 := by omega
    rfl
  · refine (((buttons_follow_switches startsOff_pressedOnce).1 5 1 _ rfl rfl).2 _ _ rfl).1 ?_
    have hbetween : ∀ r, 2 < r → r < 5 → r = 3 ∨ r = 4 := by omega
    refine ⟨2, ⟨by decide, rfl, fun r hr hnow => ?_⟩, rfl, fun r hr hnow => ?_⟩
    · rcases hbetween r hr hnow with rfl | rfl <;> rfl
    · rcases hbetween r hr hnow with rfl | rfl <;> nofun
  · refine (((buttons_follow_switches startsOff_pressedOnce).1 7 1 _ rfl rfl).2 _ _ rfl).2 ?_
    rintro ⟨p, ⟨hp, hon, -⟩, -, hnone⟩
    have hlate : p = 5 ∨ p = 6 := by
      have : ¬ p < 5 := fun hlt => hnone 5 hlt (by decide) rfl
      omega
    rcases hlate with rfl | rfl <;> cases hon

end Network

end CombinatorNet
