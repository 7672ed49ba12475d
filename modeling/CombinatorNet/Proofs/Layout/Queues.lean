import CombinatorNet.Proofs.Layout.Stages

/-!
# What waits in the queues

A wire waits for its next combinator, or for one pole in front of its combinators. Before a slot is
filled every open wire whose combinator would come too late has been relayed, so all others reach a
slot further on; a relayed one reaches its pole, which is further on as well unless it is the one
that is placed. So a contact that is placed is always the one that its wire waits for. As long as the
ends of the windows fit in words, a wire that is opened reaches a slot further on too, and so no wire
is ever open beyond its reach.

## Main definitions

* `Placement.InReach` — the open wires reach the next slot
* `Placement.QueuesAgree` — queues, open ends, poles and schedule agree

## Main results

* `Placement.Turn.lt_reach`, `Placement.Reached.inReach` — the open wires reach the next slot in all
  states of the pass
* `Network.queues_agree` — queues and schedule agree throughout the pass
-/

namespace CombinatorNet

/-- In two columns or more, the slot behind a slot is in its window. -/
theorem succ_le_windowEnd {width : Nat} (hwidth : 2 ≤ width) (slot : Nat) :
    slot + 1 ≤ windowEnd width slot := by
  have hself := Nat.div_add_mod' slot width
  have hmod : slot % width < width := Nat.mod_lt _ (by omega)
  have hsquare : 2 * width ≤ width * width := Nat.mul_le_mul_right _ hwidth
  rw [windowEnd, Nat.add_mul]
  omega

namespace Placement

variable {site : Site} {p q entry : Placement} {placed : List (String × Contact)} {wire : String}
  {pole : Pole} {e : OpenEnd} {i id slot : Nat}

/-! ### Open wires -/

/-- An open wire waits for something. -/
theorem Reached.queue_ne_nil (h : Reached site p) (hopen : p.openEnds.get? wire = some e) :
    p.queue wire ≠ [] := by
  obtain ⟨trail, hrouted⟩ := h.exists_routed
  have hends := hrouted.openEnds wire
  intro hnil
  rw [hopen, if_pos hnil] at hends
  cases hends

/-- After some contacts are placed into a slot, an open wire ends there, or it has none of them and
ends where it did before. -/
theorem slot_eq_or_of_connectEach (hq : connectEach site slot p placed = .ok q)
    (hopen : q.openEnds.get? wire = some e) :
    e.slot = slot ∨ contactsOf wire placed = [] ∧ p.openEnds.get? wire = some e := by
  induction placed generalizing p with
  | nil => cases hq; exact .inr ⟨rfl, hopen⟩
  | cons c rest ih =>
    obtain ⟨mid, hmid, hq⟩ := bind_eq_ok.mp hq
    rcases ih hq with hslot | ⟨hrest, hmopen⟩
    · exact .inl hslot
    · rw [openEnds_connect hmid] at hmopen
      split at hmopen
      · -- The wire was opened again in this slot, or not at all.
        obtain ⟨-, heq⟩ := Option.ite_none_left_eq_some.mp hmopen
        cases heq
        exact .inl rfl
      · next hne =>
        rw [contactsOf_cons, if_neg fun heq => hne heq.symm]
        exact .inr ⟨hrest, hmopen⟩

/-- A wire without a contact in the slot is still relayed when the slot is filled. -/
theorem Turn.relayed (turn : Turn site p placed entry) (h : Agrees site p)
    (hr : Relayed site p wire pole e id) (hwire : contactsOf wire placed = [])
    (hq : connectEach site p.slots.size entry placed = .ok q) : Relayed site q wire pole e id := by
  cases turn with
  | pole hi => exact hr.placePole h hi hwire hq
  | combinator hfree hnext => exact hr.placeCombinator h hnext hfree hwire hq

/-- The next combinator of a wire without a contact in the slot comes later. -/
theorem Turn.lt_predict {side : Side} {rest : List Contact} (turn : Turn site p placed entry)
    (h : Agrees site p) (hwire : contactsOf wire placed = [])
    (hwaits : site.contactsFrom wire p.next = .combinator id side :: rest) :
    p.slots.size < predict p.schedule p.slots.size (id - p.next) := by
  cases turn with
  | pole hi =>
    rw [predict_past_pole (mem_slots_iff.mpr ⟨_, hi⟩) h.nodup_schedule]
    exact Nat.lt_of_lt_of_le (Nat.lt_add_right _ (Nat.lt_succ_self _)) le_predict
  | combinator hfree hnext =>
    rw [contactsOf_nextContacts] at hwire
    rw [Site.contactsFrom_next hnext, hwire, List.nil_append] at hwaits
    have hid := Site.le_of_contactsFrom_eq_cons hwaits
    exact Nat.lt_of_lt_of_le (by omega) le_predict

/-- A wire that stays open while a slot is filled reaches the slot behind. -/
theorem Turn.lt_reach (turn : Turn site p placed entry) (h : Reached site p)
    (hsafe : endangered site p = []) (hopen : p.openEnds.get? wire = some e)
    (hwire : contactsOf wire placed = [])
    (hq : connectEach site p.slots.size entry placed = .ok q) :
    p.slots.size < reach site.width e.slot := by
  rcases h.agrees.queue wire with hqueue | ⟨pole, e', id, -, hr⟩
  · -- The wire waits for a combinator, which is out of danger.
    obtain ⟨contact, rest, hwaits⟩ := List.exists_cons_of_ne_nil (h.queue_ne_nil hopen)
    rw [hqueue] at hwaits
    obtain ⟨id, side, rfl, hid⟩ := Site.exists_of_mem_contactsFrom (hwaits ▸ List.mem_cons_self)
    have hnear : predict p.schedule p.slots.size (id - p.next) ≤ reach site.width e.slot := by
      by_contra hfar
      have hthreat : Threatened site p ⟨wire, reach site.width e.slot⟩ e id :=
        ⟨hopen, rfl, ⟨side, rest, hqueue.trans hwaits⟩, hid, Nat.lt_of_not_le hfar⟩
      exact List.not_mem_nil (hsafe ▸ mem_endangered.mpr ⟨e, id, hthreat⟩)
    exact Nat.lt_of_lt_of_le (turn.lt_predict h.agrees hwire hwaits) hnear
  · -- The wire waits for a pole that is still ahead when the slot is filled.
    obtain rfl : e' = e := Option.some_inj.mp (hr.opened.symm.trans hopen)
    have hahead := (turn.relayed h.agrees hr hwire hq).ahead
    obtain ⟨queues, openEnds, segments, rfl⟩ := connectEach_frame hq
    have hsize := turn.size_slots
    have hwithin := hr.within
    change entry.slots.size ≤ pole.slot at hahead
    omega

/-- The ends of the open wires are behind, and within reach of the next slot. -/
def InReach (site : Site) (p : Placement) : Prop :=
  ∀ wire e, p.openEnds.get? wire = some e →
    e.slot < p.slots.size ∧ p.slots.size ≤ reach site.width e.slot

theorem Turn.size_slots_of_connectEach (turn : Turn site p placed entry)
    (hq : connectEach site p.slots.size entry placed = .ok q) :
    q.slots.size = p.slots.size + 1 := by
  obtain ⟨queues, openEnds, segments, rfl⟩ := connectEach_frame hq
  exact turn.size_slots

/-- Filling a slot leaves open wires that have been near enough, and those that it opens; these
reach the end of its window if that fits in a word. -/
theorem InReach.fill (hreach : InReach site p) (hwidth : 2 ≤ site.width) (hfits : site.Fits)
    (hroom : p.slots.size ≤ memoryLimit) (turn : Turn site p placed entry) (h : Reached site p)
    (hsafe : endangered site p = []) (hq : connectEach site p.slots.size entry placed = .ok q) :
    InReach site q := by
  intro wire e hopen
  rw [turn.size_slots_of_connectEach hq]
  rcases slot_eq_or_of_connectEach hq hopen with hslot | ⟨hwire, hopen'⟩
  · have hnext := succ_le_windowEnd hwidth e.slot
    have hend := hfits.reach_eq hwidth (hslot.trans_le hroom)
    omega
  · rw [turn.openEnds_eq] at hopen'
    have hbehind := (hreach wire e hopen').1
    exact ⟨by omega, turn.lt_reach h hsafe hopen' hwire hq⟩

theorem Reached.inReach (h : Reached site p) (hwidth : 2 ≤ site.width) (hfits : site.Fits)
    (hroom : p.slots.size ≤ memoryLimit) : InReach site p := by
  induction h with
  | initial => intro wire e hopen; cases hopen
  | expire _ ih => exact ih hroom
  | merge _ _ ih => exact ih hroom
  | splice _ _ _ _ _ ih => exact ih hroom
  | placePole hp hsafe hi hq ih =>
    have turn : Turn site _ _ _ := Turn.pole hi
    have hbefore := Nat.le_of_succ_le (turn.size_slots_of_connectEach hq ▸ hroom)
    exact (ih hbefore).fill hwidth hfits hbefore turn hp hsafe hq
  | placeCombinator hp hsafe hfree hnext hq ih =>
    have turn := Turn.combinator hfree hnext
    have hbefore := Nat.le_of_succ_le (turn.size_slots_of_connectEach hq ▸ hroom)
    exact (ih hbefore).fill hwidth hfits hbefore turn hp hsafe hq

/-! ### Queues -/

/-- A wire waits for one pole at most, in front of its combinators. This pole is still to be placed;
it is scheduled for the next slot or a later one, within reach of the end of the wire and before the
slot that its next combinator is predicted to take. The poles that are still to be placed list the
wires that wait for them. -/
structure QueuesAgree (site : Site) (p : Placement) : Prop where
  tail : ∀ wire (i : Nat), .pole i ∉ (p.queue wire).tail
  front : ∀ wire (i : Nat), (p.queue wire).head? = some (.pole i) → ∃ pole e id side rest,
    p.poles[i]? = some pole ∧ .pole i ∉ p.slots ∧ ⟨pole.slot, i⟩ ∈ p.schedule ∧
    p.openEnds.get? wire = some e ∧
    p.slots.size ≤ pole.slot ∧ pole.slot ≤ reach site.width e.slot ∧
    p.queue wire = .pole i :: .combinator id side :: rest ∧
    p.next ≤ id ∧ pole.slot < predict p.schedule p.slots.size (id - p.next)
  wires : ∀ (i : Nat) pole, p.poles[i]? = some pole → .pole i ∉ p.slots →
    ∀ wire, wire ∈ pole.wires ↔ (p.queue wire).head? = some (.pole i)

/-- The poles ahead are those that are not placed. -/
theorem Filled.notMem_slots_iff (h : Filled site p) (hpole : p.poles[i]? = some pole) :
    .pole i ∉ p.slots ↔ p.slots.size ≤ pole.slot := by
  rw [← Nat.not_lt, not_iff_not, Array.mem_iff_getElem?]
  constructor
  · rintro ⟨slot, hslot⟩
    obtain ⟨hlt, r, hr, rfl⟩ := (h.poles slot i).mp hslot
    obtain rfl : r = pole := Option.some_inj.mp (hr.symm.trans hpole)
    exact hlt
  · exact fun hlt => ⟨pole.slot, (h.poles _ _).mpr ⟨hlt, pole, hpole, rfl⟩⟩

/-- A wire with a pole in front of its queue is relayed by it. -/
theorem Agrees.relayed_of_head? (h : Agrees site p)
    (hhead : (p.queue wire).head? = some (.pole i)) : ∃ pole e id,
      pole.index = i ∧ p.queue wire = .pole i :: site.contactsFrom wire p.next ∧
        Relayed site p wire pole e id := by
  rcases h.queue wire with hqueue | ⟨pole, e, id, hqueue, hr⟩
  · rw [hqueue] at hhead
    exact absurd (List.mem_of_head? hhead) Site.pole_notMem_contactsFrom
  · rw [hqueue, List.head?_cons, Option.some_inj, Contact.pole.injEq] at hhead
    subst hhead
    exact ⟨pole, e, id, rfl, hqueue, hr⟩

theorem Reached.queuesAgree (h : Reached site p) (hwidth : 0 < site.width) :
    QueuesAgree site p := by
  have hagrees := h.agrees
  have hfilled := h.filled hwidth
  refine ⟨fun wire i hmem => ?_, fun wire i hhead => ?_, fun i pole hpole hnone wire => ?_⟩
  · -- What follows in a queue are combinators, whether or not there is a pole in front.
    have hpole : .pole i ∈ site.contactsFrom wire p.next := by
      rcases hagrees.queue wire with hqueue | ⟨pole, e, id, hqueue, -⟩
      · rw [hqueue] at hmem
        exact List.mem_of_mem_tail hmem
      · rwa [hqueue] at hmem
    exact Site.pole_notMem_contactsFrom hpole
  · obtain ⟨pole, e, id, rfl, hqueue, hr⟩ := hagrees.relayed_of_head? hhead
    obtain ⟨side, rest, hwaits⟩ := hr.waits
    exact ⟨pole, e, id, side, rest, hr.stored, (hfilled.notMem_slots_iff hr.stored).mpr hr.ahead,
      (hagrees.mem_schedule _ _).mpr ⟨hr.ahead, pole, hr.stored, rfl⟩, hr.opened, hr.ahead,
      hr.within, hqueue.trans (congrArg _ hwaits), Site.le_of_contactsFrom_eq_cons hwaits,
      hr.before⟩
  · constructor
    · intro hmem
      rw [hagrees.wires i pole wire hpole ((hfilled.notMem_slots_iff hpole).mp hnone) hmem]
      rfl
    · intro hhead
      obtain ⟨r, e, id, rfl, -, hr⟩ := hagrees.relayed_of_head? hhead
      obtain rfl : r = pole := Option.some_inj.mp (hr.stored.symm.trans hpole)
      exact hr.carries

/-! ### The last combinator -/

/-- The last combinator takes a slot behind all poles, since a pole still ahead would carry a wire
to a later one. -/
theorem Turn.schedule_eq_nil (turn : Turn site p placed entry) (h : Reached site p)
    (hdone : site.connections.size ≤ entry.next) : entry.schedule = [] := by
  cases turn with
  | pole hi =>
    obtain ⟨pole, hpole, hslot⟩ := h.agrees.exists_pole hi
    exact absurd (h.next_lt_of_pole hpole hslot.ge) (Nat.not_lt_of_le hdone)
  | combinator hfree hnext =>
    refine List.eq_nil_iff_forall_not_mem.mpr fun s hs => ?_
    obtain ⟨hahead, pole, hpole, hslot⟩ := (h.agrees.mem_schedule s.slot s.pole).mp hs
    obtain ⟨wire, hwire⟩ := List.exists_mem_of_length_pos (h.loaded hpole).pos
    have hqueue := h.agrees.wires s.pole pole wire hpole (hslot ▸ hahead) hwire
    by_cases hnone : contactsOf wire (nextContacts site p) = []
    · -- The wire would have no contact left.
      obtain ⟨e, id, hr⟩ := h.agrees.relayed hpole (hslot ▸ hahead) hwire
      obtain ⟨side, rest, hwaits⟩ := hr.waits
      have hlast : site.connections.size ≤ p.next + 1 := hdone
      rw [contactsOf_nextContacts] at hnone
      rw [Site.contactsFrom_next hnext, hnone, Site.contactsFrom_of_le hlast] at hwaits
      cases hwaits
    · -- The wire waits for this combinator, not for a pole.
      rw [h.agrees.queue_eq_of_next hnext hfree hnone] at hqueue
      exact Site.pole_notMem_contactsFrom (hqueue ▸ List.mem_cons_self)

/-- From the last combinator on, no pole is scheduled. -/
theorem Visits.schedule_eq_nil {run : Nat} {stage : Stage} (h : Visits site run stage p)
    (hdone : site.connections.size ≤ p.next) : p.schedule = [] := by
  have hholds := h.holds
  cases stage with
  | slot => exact hholds.schedule_eq_nil hdone
  | relays round wires => exact absurd hholds.unfinished (Nat.not_lt_of_le hdone)
  | contacts slot placed =>
    obtain ⟨before, done, entry, hbefore, -, -, turn, hp⟩ := hholds
    obtain ⟨queues, openEnds, segments, rfl⟩ := connectEach_frame hp
    exact turn.schedule_eq_nil hbefore hdone

end Placement

/-- Whatever the network, the colors and the settings are, queues, open ends, poles and schedule
agree when the pass comes to a slot, and before and after each wire that is relayed; all open wires
reach the next slot as long as the cube of the width fits in a word, and the slots in a memory. Each
contact is in front of the queue of its wire when it is placed, also in a slot that is not completed,
and no pole is scheduled any more when the last combinator has entered its slot. The states that
this is about are those that a layout, or a fault, comes from. -/
theorem Network.queues_agree (n : Network) (settings : LayoutSettings) (colors : NameMap Color) :
    (∀ run p, Placement.Visits (n.site settings colors) run .slot p →
      Placement.QueuesAgree (n.site settings colors) p ∧
      ((n.site settings colors).Fits → p.slots.size ≤ memoryLimit →
        Placement.InReach (n.site settings colors) p)) ∧
    (∀ run round wires p, Placement.Visits (n.site settings colors) run (.relays round wires) p →
      Placement.QueuesAgree (n.site settings colors) p ∧
      ((n.site settings colors).Fits → p.slots.size ≤ memoryLimit →
        Placement.InReach (n.site settings colors) p)) ∧
    (∀ run slot wire contact rest p,
      Placement.Visits (n.site settings colors) run (.contacts slot ((wire, contact) :: rest)) p →
      (p.queue wire).head? = some contact) ∧
    (∀ run stage p, Placement.Visits (n.site settings colors) run stage p →
      n.nodes.length ≤ p.next → p.schedule = []) ∧
    Placement.Leads (n.site settings colors)
      (fun l => ∃ run p, Placement.Visits (n.site settings colors) run .slot p ∧
        n.nodes.length ≤ p.next ∧ l = p.toLayout (n.site settings colors))
      (n.site settings colors).layout := by
  have hwidth := n.two_le_width_site settings colors
  have hagree : ∀ p, Placement.Reached (n.site settings colors) p →
      Placement.QueuesAgree (n.site settings colors) p ∧
      ((n.site settings colors).Fits → p.slots.size ≤ memoryLimit →
        Placement.InReach (n.site settings colors) p) :=
    fun p hp => ⟨hp.queuesAgree (n.width_site_pos settings colors), hp.inReach hwidth⟩
  rw [← n.size_connections_site settings colors]
  exact ⟨fun run p hp => hagree p hp.holds, fun run round wires p hp => hagree p hp.holds.reached,
    fun run slot wire contact rest p hp => hp.holds.head?_queue,
    fun run stage p hp => hp.schedule_eq_nil, Placement.leads_layout _⟩

/-- In rows of two, the wire of two distant combinators waits for a pole in the last slot within
reach when the pass comes to the third slot. -/
theorem Network.queues_agree_distantPair :
    let site := distantPair.site ⟨2, 5⟩ (.ofList [("A", .red)])
    ∃ p, Placement.Visits site 0 .slot p ∧ p.queue "A" = [.pole 0, .combinator 5 .input] ∧
      p.schedule = [⟨3, 0⟩] ∧ Placement.QueuesAgree site p ∧ Placement.InReach site p := by
  intro site
  have htwo : ((Placement.fill site (.initial site) 0).toOption.bind fun r =>
      (Placement.fill site r.1 r.2).toOption).map
        (fun r => (r.2, r.1.slots.size, r.1.queue "A", r.1.schedule)) =
      some (0, 2, [.pole 0, .combinator 5 .input], [⟨3, 0⟩]) := by decide +kernel
  have hinitial : Placement.Visits site 0 .slot (.initial site) := .initial
  cases hfirst : Placement.fill site (.initial site) 0 with
  | error fault => rw [hfirst] at htwo; cases htwo
  | ok r =>
    rw [hfirst] at htwo
    have hvisits := hinitial.fill (Nat.zero_lt_succ 5) hfirst
    have hnext : r.1.next < site.connections.size := by
      have hsize : site.connections.size = 6 := rfl
      have hzero : (Placement.initial site).next = 0 := rfl
      rcases Placement.next_fill hfirst with ⟨hr, -⟩ | ⟨hr, -⟩ <;> omega
    cases hsecond : Placement.fill site r.1 r.2 with
    | error fault => simp [hsecond, Except.toOption] at htwo
    | ok r' =>
      have hvisits' := hvisits.fill hnext hsecond
      simp only [Except.toOption, Option.bind_some, hsecond, Option.map_some, Option.some.injEq,
        Prod.mk.injEq] at htwo
      obtain ⟨hrun, hsize, hqueue, hschedule⟩ := htwo
      rw [hrun] at hvisits'
      have hroom : r'.1.slots.size ≤ memoryLimit := hsize ▸ by decide
      obtain ⟨hagrees, hreach⟩ := (queues_agree distantPair ⟨2, 5⟩ _).1 0 r'.1 hvisits'
      exact ⟨r'.1, hvisits', hqueue, hschedule, hagrees, hreach (by decide) hroom⟩

/-- In overlong rows, the open wire of two adjacent combinators does not reach the second slot when
the pass comes to it. -/
theorem Network.adjacent_beyond_reach :
    let site := (pairApart 0).site overlongRows (.ofList [("A", .red)])
    ∃ p e, Placement.Visits site 0 .slot p ∧ p.openEnds.get? "A" = some e ∧
      reach site.width e.slot < p.slots.size := by
  intro site
  have hone : (Placement.fill site (.initial site) 0).toOption.map
      (fun r => (r.2, r.1.slots.size, r.1.openEnds.get? "A")) =
      some (0, 1, some ⟨.combinator 0 .output, 0⟩) := by decide +kernel
  have hinitial : Placement.Visits site 0 .slot (.initial site) := .initial
  cases hfirst : Placement.fill site (.initial site) 0 with
  | error fault => rw [hfirst] at hone; cases hone
  | ok r =>
    rw [hfirst] at hone
    have hvisits := hinitial.fill (Nat.zero_lt_succ 1) hfirst
    simp only [Except.toOption, Option.map_some, Option.some.injEq, Prod.mk.injEq] at hone
    obtain ⟨hrun, hsize, hopen⟩ := hone
    rw [hrun] at hvisits
    have hshort : reach site.width 0 < 1 := by decide
    exact ⟨r.1, _, hvisits, hopen, hsize ▸ hshort⟩

end CombinatorNet
