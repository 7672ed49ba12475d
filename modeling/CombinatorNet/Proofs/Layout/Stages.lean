import CombinatorNet.Proofs.Layout.Appending
import CombinatorNet.Proofs.Layout.Termination

/-!
# The pass step by step

Between the start of one slot and that of the next, the pass relays one endangered wire after the
other, round by round, and then places one contact after the other. A state with the stage that the
pass has come to there is visited if the steps lead to it. Everything that a layout or a fault comes
from is visited, also the states in the middle of a round that fails.

## Main definitions

* `Placement.Stage`, `Placement.Visits` — the stages of the pass, and the states it goes through
* `Placement.Fails` — where the pass fails
* `Placement.Relaying`, `Placement.Filling` — what holds between the steps for a slot

## Main results

* `Site.leads_layout` — a layout, or a fault, comes from a visited state
* `Placement.Visits.holds` — what holds at each stage
* `Placement.Visits.exists_poles` — a run of poles fills the latest slots
-/

namespace CombinatorNet.Placement

variable {site : Site} {p q : Placement} {run round slot : Nat} {wire : String} {contact : Contact}
  {placed : List (String × Contact)}

/-- Where the pass is. -/
inductive Stage
  /-- The pass comes to a slot. -/
  | slot
  /-- The pass relays wires before a slot, in a round with some wires left. -/
  | relays (round : Nat) (wires : List Endangered)
  /-- The pass fills a slot, with some contacts left. -/
  | contacts (slot : Nat) (placed : List (String × Contact))

/-- The states of the pass with their stages and with the number of poles since the last
combinator. There is no limit here to the rounds of relaying. -/
inductive Visits (site : Site) : Nat → Stage → Placement → Prop
  | initial : Visits site 0 .slot (initial site)
  | expire {run : Nat} {p : Placement} : Visits site run .slot p →
      p.next < site.connections.size → Visits site run (.relays 0 []) p.expire
  /-- A round of relaying begins as long as wires are endangered. -/
  | round {run round : Nat} {p : Placement} : Visits site run (.relays round []) p →
      endangered site p ≠ [] → Visits site run (.relays (round + 1) (endangered site p)) p
  | relay {run round : Nat} {p q : Placement} {d : Endangered} {rest : List Endangered} :
      Visits site run (.relays round (d :: rest)) p → relay site round p d = .ok q →
      Visits site run (.relays round rest) q
  | pole {run round : Nat} {p : Placement} {s : ScheduledPole} :
      Visits site run (.relays round []) p → endangered site p = [] →
      p.schedule.find? (fun s => s.slot = p.slots.size) = some s →
      Visits site (run + 1) (.contacts p.slots.size (p.poleContacts s.pole)) (p.enterPole s.pole)
  | combinator {run round : Nat} {p : Placement} :
      Visits site run (.relays round []) p → endangered site p = [] →
      p.schedule.find? (fun s => s.slot = p.slots.size) = none →
      Visits site 0 (.contacts p.slots.size (nextContacts site p)) (enterCombinator site p)
  | connect {run slot : Nat} {p q : Placement} {wire : String} {contact : Contact}
      {rest : List (String × Contact)} :
      Visits site run (.contacts slot ((wire, contact) :: rest)) p →
      connect site slot p wire contact = .ok q → Visits site run (.contacts slot rest) q
  /-- The pass comes to the next slot unless there have been too many poles. -/
  | next {run slot : Nat} {p : Placement} : Visits site run (.contacts slot []) p →
      run ≤ runLimit site → Visits site run .slot p

/-- The pass fails in one of its states: a wire cannot be relayed, the rounds have run out, a
contact cannot be placed, or there have been too many poles. -/
inductive Fails (site : Site) : LayoutFault → Prop
  | relay {run round : Nat} {p : Placement} {d : Endangered} {rest : List Endangered}
      {fault : LayoutFault} : Visits site run (.relays round (d :: rest)) p →
      relay site round p d = .error fault → Fails site fault
  | rounds {run round : Nat} {p : Placement} : Visits site run (.relays round []) p →
      endangered site p ≠ [] → roundLimit site ≤ round →
      Fails site (.tooComplex (round + 1) p.slots.size)
  | connect {run slot : Nat} {p : Placement} {wire : String} {contact : Contact}
      {rest : List (String × Contact)} {fault : LayoutFault} :
      Visits site run (.contacts slot ((wire, contact) :: rest)) p →
      connect site slot p wire contact = .error fault → Fails site fault
  | run {run slot : Nat} {p : Placement} : Visits site run (.contacts slot []) p →
      runLimit site < run → Fails site (.tooComplex run slot)

/-! ### The pass visits its states -/

/-- A result with a property, or a fault that the pass fails with. -/
def Leads {α : Type} (site : Site) (P : α → Prop) : Except LayoutFault α → Prop
  | .ok a => P a
  | .error fault => Fails site fault

theorem Leads.bind {α β : Type} {P : α → Prop} {Q : β → Prop} {x : Except LayoutFault α}
    {f : α → Except LayoutFault β} (hx : Leads site P x) (hf : ∀ a, P a → Leads site Q (f a)) :
    Leads site Q (x >>= f) := by
  cases x with
  | error fault => exact hx
  | ok a => exact hf a hx

/-- A round goes through all its wires if none of them fails. -/
theorem Visits.relayEach {ds : List Endangered} (h : Visits site run (.relays round ds) p)
    (hq : relayEach site round p ds = .ok q) : Visits site run (.relays round []) q := by
  induction ds generalizing p with
  | nil => cases hq; exact h
  | cons d rest ih =>
    obtain ⟨mid, hmid, hq⟩ := bind_eq_ok.mp hq
    exact ih (h.relay hmid) hq

/-- A round fails at one of its wires. -/
theorem Visits.exists_relay_error {ds : List Endangered} {fault : LayoutFault}
    (h : Visits site run (.relays round ds) p) (hfault : Placement.relayEach site round p ds =
      .error fault) : ∃ q d rest, Visits site run (.relays round (d :: rest)) q ∧
        q.slots = p.slots ∧ Placement.relay site round q d = .error fault := by
  induction ds generalizing p with
  | nil => cases hfault
  | cons d rest ih =>
    cases hmid : Placement.relay site round p d with
    | error fault' =>
      rw [Placement.relayEach, hmid] at hfault
      cases hfault
      exact ⟨p, d, rest, h, rfl, hmid⟩
    | ok mid =>
      rw [Placement.relayEach, hmid] at hfault
      obtain ⟨q, d', rest', hq, hslots, hd'⟩ := ih (h.relay hmid) hfault
      exact ⟨q, d', rest', hq, hslots.trans (slots_relay hmid), hd'⟩

theorem Visits.leads_settle {left : Nat} (h : Visits site run (.relays round []) p)
    (hleft : round + left = roundLimit site) :
    Leads site (fun q => (∃ round, Visits site run (.relays round []) q) ∧ endangered site q = [])
      (settle site left p) := by
  induction left generalizing round p with
  | zero =>
    rw [settle]
    split
    · next hnone => exact ⟨⟨round, h⟩, List.isEmpty_iff.mp hnone⟩
    · next hsome =>
      have hne : endangered site p ≠ [] := fun hnone => hsome (List.isEmpty_iff.mpr hnone)
      exact hleft ▸ Fails.rounds h hne hleft.ge
  | succ left ih =>
    rw [settle]
    split
    · next hnone => exact ⟨⟨round, h⟩, hnone⟩
    · next ds hne =>
      have hround : roundLimit site - left = round + 1 := by omega
      have hbegin := h.round hne
      rw [hround]
      cases hmid : Placement.relayEach site (round + 1) p (endangered site p) with
      | error fault =>
        obtain ⟨q, d, rest, hq, -, hd⟩ := hbegin.exists_relay_error hmid
        exact Fails.relay hq hd
      | ok mid => exact ih (hbegin.relayEach hmid) (by omega)

theorem Visits.leads_connectEach (h : Visits site run (.contacts slot placed) p) :
    Leads site (Visits site run (.contacts slot [])) (connectEach site slot p placed) := by
  induction placed generalizing p with
  | nil => exact h
  | cons c rest ih =>
    rw [connectEach]
    cases hmid : Placement.connect site slot p c.1 c.2 with
    | error fault => exact Fails.connect h hmid
    | ok mid => exact ih (h.connect hmid)

theorem Visits.leads_fill (h : Visits site run .slot p) (hnext : p.next < site.connections.size) :
    Leads site (fun r => Visits site r.2 .slot r.1) (fill site p run) := by
  refine ((h.expire hnext).leads_settle (Nat.zero_add _)).bind ?_
  rintro mid ⟨⟨round, hmid⟩, hsafe⟩
  -- Either a pole is scheduled for the slot, or the next combinator takes it.
  split
  · next s hfind =>
    refine (hmid.pole hsafe hfind).leads_connectEach.bind fun placed hplaced => ?_
    split
    · next hlong => exact Fails.run hplaced hlong
    · next hshort => exact hplaced.next (Nat.le_of_not_lt hshort)
  · next hfind =>
    exact (hmid.combinator hsafe hfind).leads_connectEach.bind fun placed hplaced =>
      hplaced.next (Nat.zero_le _)

/-- Filling a slot leads to the next one. -/
theorem Visits.fill {run' : Nat} (h : Visits site run .slot p)
    (hnext : p.next < site.connections.size) (hq : fill site p run = .ok (q, run')) :
    Visits site run' .slot q := by
  have hfills := h.leads_fill hnext
  rw [hq] at hfills
  exact hfills

theorem Visits.leads_complete (h : Visits site run .slot p) :
    Leads site (fun q => (∃ run, Visits site run .slot q) ∧ site.connections.size ≤ q.next)
      (complete site p run) := by
  fun_induction complete site p run with
  | case1 p run hnext fault hfill =>
    have hfails := h.leads_fill hnext
    rw [hfill] at hfails
    exact hfails
  | case2 p run hnext q run' hfill ih => exact ih (h.fill hnext hfill)
  | case3 p run hdone => exact ⟨⟨run, h⟩, Nat.le_of_not_lt hdone⟩

/-- A layout describes a visited state in which all combinators are placed, and a fault is one that
the pass fails with in a visited state. -/
theorem leads_layout (site : Site) : Leads site (fun l => ∃ run p, Visits site run .slot p ∧
    site.connections.size ≤ p.next ∧ l = p.toLayout site) site.layout :=
  Visits.initial.leads_complete.bind fun p ⟨⟨run, hp⟩, hdone⟩ => ⟨run, p, hp, hdone, rfl⟩

/-! ### What holds at a stage -/

/-- The pass is in one of its states before a slot, and the wires that are left in the round are
still in danger. -/
structure Relaying (site : Site) (wires : List Endangered) (p : Placement) : Prop where
  reached : Reached site p
  unfinished : p.next < site.connections.size
  threatened : ∀ d ∈ wires, ∃ e id, Threatened site p d e id
  nodup : (wires.map (·.wire)).Nodup

/-- The contacts that are placed into the next slot, and the state in which they are placed. -/
inductive Turn (site : Site) (p : Placement) : List (String × Contact) → Placement → Prop
  | pole {i : Nat} : ⟨p.slots.size, i⟩ ∈ p.schedule →
      Turn site p (p.poleContacts i) (p.enterPole i)
  | combinator : p.slots.size ∉ p.schedule.map (·.slot) → p.next < site.connections.size →
      Turn site p (nextContacts site p) (enterCombinator site p)

/-- The pass was in one of its states before the slot, and some contacts of the slot are placed. -/
def Filling (site : Site) (slot : Nat) (placed : List (String × Contact)) (p : Placement) : Prop :=
  ∃ before done entry, Reached site before ∧ endangered site before = [] ∧
    before.slots.size = slot ∧ Turn site before (done ++ placed) entry ∧
    connectEach site slot entry done = .ok p

/-- What holds at a stage. -/
def Stage.Holds (site : Site) : Stage → Placement → Prop
  | .slot, p => Reached site p
  | .relays _ wires, p => Relaying site wires p
  | .contacts i placed, p => Filling site i placed p

theorem Turn.inFront {entry : Placement} (h : Agrees site p) (turn : Turn site p placed entry)
    (wire : String) : contactsOf wire placed <+: p.queue wire := by
  cases turn with
  | pole hi => exact h.poleContacts_inFront hi wire
  | combinator hfree hnext => exact h.nextContacts_inFront hnext hfree wire

theorem Turn.queue_eq {entry : Placement} (turn : Turn site p placed entry) (wire : String) :
    entry.queue wire = p.queue wire := by
  cases turn <;> rfl

theorem Turn.openEnds_eq {entry : Placement} (turn : Turn site p placed entry) :
    entry.openEnds = p.openEnds := by
  cases turn <;> rfl

theorem Turn.size_slots {entry : Placement} (turn : Turn site p placed entry) :
    entry.slots.size = p.slots.size + 1 := by
  cases turn with
  | pole => exact Array.size_push _
  | combinator => exact Array.size_push _

theorem Turn.reached {entry : Placement} (turn : Turn site p placed entry) (h : Reached site p)
    (hsafe : endangered site p = []) (hq : connectEach site p.slots.size entry placed = .ok q) :
    Reached site q := by
  cases turn with
  | pole hi => exact h.placePole hsafe hi hq
  | combinator hfree hnext => exact h.placeCombinator hsafe hfree hnext hq

theorem Relaying.relay {d : Endangered} {rest : List Endangered}
    (h : Relaying site (d :: rest) p) (hq : relay site round p d = .ok q) :
    Relaying site rest q := by
  obtain ⟨hreached, hrest, hnodup⟩ := h.reached.relay_first h.threatened h.nodup hq
  exact ⟨hreached, next_relay hq ▸ h.unfinished, hrest, hnodup⟩

theorem Relaying.filling {wires : List Endangered} {entry : Placement}
    (h : Relaying site wires p) (hsafe : endangered site p = []) (turn : Turn site p placed entry) :
    Filling site p.slots.size placed entry :=
  ⟨p, [], entry, h.reached, hsafe, rfl, turn, rfl⟩

theorem Filling.connect {rest : List (String × Contact)}
    (h : Filling site slot ((wire, contact) :: rest) p)
    (hq : connect site slot p wire contact = .ok q) : Filling site slot rest q := by
  obtain ⟨before, done, entry, hbefore, hsafe, hslot, turn, hp⟩ := h
  refine ⟨before, done ++ [(wire, contact)], entry, hbefore, hsafe, hslot, ?_, ?_⟩
  · rwa [List.append_assoc]
  · rw [connectEach_append, hp]
    exact bind_eq_ok.mpr ⟨p, rfl, bind_eq_ok.mpr ⟨q, hq, rfl⟩⟩

theorem Filling.reached (h : Filling site slot [] p) : Reached site p := by
  obtain ⟨before, done, entry, hbefore, hsafe, rfl, turn, hp⟩ := h
  rw [List.append_nil] at turn
  exact turn.reached hbefore hsafe hp

theorem Filling.size_slots (h : Filling site slot placed p) : p.slots.size = slot + 1 := by
  obtain ⟨before, done, entry, -, -, rfl, turn, hp⟩ := h
  obtain ⟨queues, openEnds, segments, rfl⟩ := connectEach_frame hp
  exact turn.size_slots

/-- The next contact to be placed is in front of the queue of its wire. -/
theorem Filling.head?_queue {rest : List (String × Contact)}
    (h : Filling site slot ((wire, contact) :: rest) p) :
    (p.queue wire).head? = some contact := by
  obtain ⟨before, done, entry, hbefore, -, -, turn, hp⟩ := h
  obtain ⟨more, hmore⟩ := turn.inFront hbefore.agrees wire
  -- The contacts of the wire that are placed already were before this one.
  have hcontacts : contactsOf wire (done ++ (wire, contact) :: rest) =
      contactsOf wire done ++ contact :: contactsOf wire rest := by
    simp [contactsOf]
  rw [hcontacts, List.append_assoc, List.cons_append] at hmore
  rw [queue_connectEach hp, turn.queue_eq, ← hmore, List.drop_left, List.head?_cons]

/-- Each step keeps what holds at its stage. -/
theorem Visits.holds {stage : Stage} (h : Visits site run stage p) : stage.Holds site p := by
  induction h with
  | initial => exact Reached.initial
  | expire _ hnext ih => exact ⟨ih.expire, hnext, nofun, List.nodup_nil⟩
  | round _ _ ih =>
    exact ⟨ih.reached, ih.unfinished, fun d hd => mem_endangered.mp hd, nodup_endangered site _⟩
  | relay _ hq ih => exact ih.relay hq
  | pole _ hsafe hfind ih => exact ih.filling hsafe (.pole (mem_schedule_of_find? hfind))
  | combinator _ hsafe hfind ih =>
    exact ih.filling hsafe (.combinator (free_of_find?_eq_none hfind) ih.unfinished)
  | connect _ hq ih => exact ih.connect hq
  | next _ _ ih => exact ih.reached

/-- The poles since the last combinator fill the latest slots. -/
theorem Visits.exists_poles {stage : Stage} (h : Visits site run stage p) :
    ∃ (cells : List Cell) (poles : List Nat),
      p.slots.toList = cells ++ poles.map .pole ∧ poles.length = run := by
  induction h with
  | initial => exact ⟨[], [], rfl, rfl⟩
  | expire _ _ ih => exact ih
  | round _ _ ih => exact ih
  | relay _ hq ih => rwa [slots_relay hq]
  | @pole _ _ p s _ _ _ ih =>
    obtain ⟨cells, poles, hslots, hlength⟩ := ih
    refine ⟨cells, poles ++ [s.pole], ?_, by rw [List.length_append, hlength]; rfl⟩
    rw [enterPole, Array.toList_push, hslots, List.map_append, List.append_assoc]
    rfl
  | combinator => exact ⟨_, [], (List.append_nil _).symm, rfl⟩
  | connect _ hq ih =>
    obtain ⟨queues, openEnds, segments, rfl⟩ := connect_frame hq
    exact ih
  | next _ _ ih => exact ih

end CombinatorNet.Placement
