import CombinatorNet.Proofs.Layout.FreeSlots
import CombinatorNet.Proofs.Layout.Overlong
import CombinatorNet.Proofs.Layout.Queues

/-!
# Rounds of relaying

A new pole may put combinators out of reach of other wires, so relaying goes round by round. The
rounds need no limit. All open wires end behind the next slot, so whatever is relayed comes to stand
within a few slots from there on, fewer than the square of the width. A round in which all wires
join poles that are scheduled already puts no combinator off and is the last one; each other round
takes one of these slots. When they are all taken a further wire cannot be relayed, and that is the
fault that is reported.

## Main definitions

* `Placement.FullWindow` — a wire must be relayed but cannot be
* `Placement.crowding`, `Placement.Counted` — how many poles are scheduled within reach, and that
  the rounds are no more than these
* `Placement.unguardedRound`, `Placement.Settles` — a round of relaying without a limit to the
  rounds, and how the relaying before a slot ends

## Main results

* `Placement.fullWindow_of_relay` — where a wire with a color is not relayed, its window is full
* `Placement.Visits.round_le` — the limit is never exceeded
* `Network.relaying_ends` — relaying ends without a limit, and what the pass fails for
-/

namespace CombinatorNet

namespace Placement

variable {site : Site} {p q : Placement} {run round slot : Nat} {wire : String} {d : Endangered}
  {rest wires : List Endangered}

/-! ### Where a wire is not relayed -/

private theorem foldl_latest_eq_none (fits : Pole → Prop) [DecidablePred fits]
    {candidates : List Pole} {best : Option Pole}
    (h : candidates.foldl
      (fun best r => if fits r then
        match best with
        | none => some r
        | some b => if b.slot ≤ r.slot then some r else some b
      else best) best = none) : best = none ∧ ∀ r ∈ candidates, ¬ fits r := by
  induction candidates generalizing best with
  | nil => exact ⟨h, nofun⟩
  | cons c rest ih =>
    obtain ⟨hbest, hrest⟩ := ih h
    -- A pole that fits would have been picked, or an earlier one kept.
    dsimp only at hbest
    split at hbest
    · cases best with
      | none => cases hbest
      | some b =>
        dsimp only at hbest
        split at hbest <;> cases hbest
    · next hc => exact ⟨hbest, List.forall_mem_cons.mpr ⟨hc, hrest⟩⟩

/-- No pole is found only if no recent one fits. -/
theorem mergeable?_eq_none {color : Color} {first last : Nat}
    (h : mergeable? site p wire color first last = none) {i : Nat} (hi : i ∈ p.recent) {pole : Pole}
    (hpole : p.poles[i]? = some pole) (hfirst : first ≤ pole.slot) (hlast : pole.slot ≤ last) :
    hasRoom site wire color pole = false := by
  obtain ⟨-, hnone⟩ := foldl_latest_eq_none
    (fun r => first ≤ r.slot ∧ r.slot ≤ last ∧ hasRoom site wire color r = true) h
  have hmem := List.mem_filterMap.mpr ⟨i, hi, hpole⟩
  exact Bool.eq_false_iff.mpr fun hroom => hnone pole hmem ⟨hfirst, hlast, hroom⟩

/-- No slot is found only if all of them have poles. -/
theorem latestFree_eq_none {schedule : List ScheduledPole} {first count : Nat}
    (h : latestFree schedule first count = none) (hfirst : first ≤ slot)
    (hlast : slot < first + count) : slot ∈ schedule.map (·.slot) := by
  induction count with
  | zero => omega
  | succ count ih =>
    rw [latestFree] at h
    split at h
    · next htaken =>
      by_cases heq : slot = first + count
      · exact heq ▸ isScheduled_iff.mp htaken
      · exact ih h (by omega)
    · cases h

/-- A wire must be relayed, but no recent pole within its reach has room for it, and no slot within
its reach is free. -/
structure FullWindow (site : Site) (p : Placement) (d : Endangered) : Prop where
  mem : d ∈ endangered site p
  ahead : p.slots.size ≤ d.reach
  full : ∀ color, site.colors.get? d.wire = some color → ∀ i ∈ p.recent, ∀ pole,
    p.poles[i]? = some pole → p.slots.size ≤ pole.slot → pole.slot ≤ d.reach →
      hasRoom site d.wire color pole = false
  taken : ∀ slot, p.slots.size ≤ slot → slot ≤ d.reach → slot ∈ p.schedule.map (·.slot)

/-! The rest of this takes widths whose numbers fit in words, and slots that a memory has room
for. -/

section

variable (hwidth : 2 ≤ site.width) (hfits : site.Fits)

include hwidth hfits

/-- A wire with a color is relayed unless its window is full. -/
theorem fullWindow_of_relay (h : Reached site p) (hmem : d ∈ endangered site p)
    {fault : LayoutFault} (hq : relay site round p d = .error fault) :
    fault = .uncolored d.wire ∧ site.colors.get? d.wire = none ∨
      fault = .tooComplex round p.slots.size ∧
        (p.slots.size ≤ memoryLimit → FullWindow site p d) := by
  obtain ⟨e, id, hd⟩ := mem_endangered.mp hmem
  cases hcolor : site.colors.get? d.wire with
  | none =>
    simp only [relay, colorOf, hcolor, bind, Except.bind] at hq
    cases hq
    exact .inl ⟨rfl, rfl⟩
  | some color =>
    simp only [relay, colorOf, hcolor, bind, Except.bind] at hq
    split at hq
    · cases hq
    · next hmerge =>
      split at hq
      · cases hq
      · next hfree =>
        cases hq
        refine .inr ⟨rfl, fun hroom => ⟨hmem, ?_, ?_,
          fun slot hfirst hlast => latestFree_eq_none hfree hfirst (by omega)⟩⟩
        · exact hd.reach_eq ▸ (h.inReach hwidth hfits hroom d.wire e hd.opened).2
        intro color' hcolor' i hi pole hpole hfirst hlast
        obtain rfl : color = color' := Option.some_inj.mp (hcolor.symm.trans hcolor')
        exact mergeable?_eq_none hmerge hi hpole hfirst hlast

/-! ### Counting the poles within reach -/

/-- How many poles are scheduled for the slots that open wires may reach, which are fewer than the
square of the width. -/
def crowding (site : Site) (p : Placement) : Nat :=
  scheduledWithin p.schedule p.slots.size (p.slots.size + roundLimit site - 2)

theorem four_le_roundLimit : 4 ≤ roundLimit site := by
  rw [roundLimit_eq hfits hwidth]
  exact Nat.mul_le_mul hwidth hwidth

theorem Agrees.crowding_lt (h : Agrees site p) : crowding site p < roundLimit site := by
  have hcard : crowding site p ≤ p.slots.size + roundLimit site - 2 + 1 - p.slots.size :=
    scheduledWithin_le_card h.nodup_schedule _ _
  have hlimit := four_le_roundLimit hwidth hfits
  omega

/-- A new pole that stands within reach of an open wire counts. -/
theorem Reached.crowding_addPole (h : Reached site p) (hroom : p.slots.size ≤ memoryLimit)
    {e : OpenEnd} (hopen : p.openEnds.get? wire = some e) (hslot : p.slots.size ≤ slot)
    (hwithin : slot ≤ reach site.width e.slot) :
    crowding site (addPole site p slot) = crowding site p + 1 := by
  have hbehind := (h.inReach hwidth hfits hroom wire e hopen).1
  have hnear : reach site.width e.slot < e.slot + roundLimit site := by
    rw [roundLimit_eq hfits hwidth]
    exact (reach_le_windowEnd _ _).trans_lt (windowEnd_lt (by omega) e.slot)
  have hlast : slot ≤ p.slots.size + roundLimit site - 2 := by omega
  show scheduledWithin (⟨slot, p.poles.size⟩ :: p.schedule) _ _ = _
  refine List.countP_cons_of_pos ?_
  rw [Bool.and_eq_true, decide_eq_true_eq, decide_eq_true_eq]
  exact ⟨hslot, hlast⟩

/-- A relayed wire joins a pole, or a new pole is scheduled within reach. -/
theorem Relaying.crowding_relay (h : Relaying site (d :: rest) p)
    (hroom : p.slots.size ≤ memoryLimit) (hq : Placement.relay site round p d = .ok q) :
    (crowding site q = crowding site p ∧ ∃ i, q = p.route d.wire i) ∨
      crowding site q = crowding site p + 1 := by
  obtain ⟨e, id, hd⟩ := h.threatened d List.mem_cons_self
  rcases exists_hop_of_relay h.reached.agrees hd hq with
    ⟨pole, hop, rfl⟩ | ⟨slot, pole, hslot, hfree, hindex, hop, rfl⟩
  · exact .inl ⟨rfl, pole.index, rfl⟩
  · -- The pole of the hop is the new one.
    have hstored := hop.stored
    rw [hindex, poles_addPole, if_pos rfl] at hstored
    have hpole : pole.slot = slot := (congrArg Pole.slot (Option.some_inj.mp hstored)).symm
    exact .inr (h.reached.crowding_addPole hwidth hfits hroom hop.opened hslot
      (hpole ▸ hop.within))

omit hwidth hfits in
/-- Joining a pole endangers no wire, and takes one out of danger. -/
theorem endangered_route {i : Nat} {d' : Endangered}
    (h : d' ∈ endangered site (p.route wire i)) : d'.wire ≠ wire ∧ d' ∈ endangered site p := by
  obtain ⟨e, id, hd⟩ := mem_endangered.mp h
  obtain ⟨side, rest, hwaits⟩ := hd.waits
  rw [queue_route] at hwaits
  split at hwaits
  · cases hwaits
  · next hne => exact ⟨hne, mem_endangered.mpr ⟨e, id, hd.opened, hd.reach_eq,
      ⟨side, rest, hwaits⟩, hd.ahead, hd.far⟩⟩

/-- Each round has taken a slot, or it is the current one, and has left no wire in danger but those
that are still to be relayed in it. -/
def Counted (site : Site) (round : Nat) (wires : List Endangered) (p : Placement) : Prop :=
  round ≤ crowding site p ∨
    round ≤ crowding site p + 1 ∧ ∀ d ∈ endangered site p, d ∈ wires

theorem Counted.relay (h : Counted site round (d :: rest) p) (hp : Relaying site (d :: rest) p)
    (hroom : p.slots.size ≤ memoryLimit) (hq : relay site round p d = .ok q) :
    Counted site round rest q := by
  rcases hp.crowding_relay hwidth hfits hroom hq with ⟨hsame, i, rfl⟩ | hmore
  · -- The wire joins a pole, so there is nothing new in danger.
    refine h.imp hsame.ge.trans' fun ⟨hle, hwires⟩ => ⟨hsame ▸ hle, fun d' hd' => ?_⟩
    obtain ⟨hne, hd'⟩ := endangered_route hd'
    rcases List.mem_cons.mp (hwires d' hd') with rfl | hrest
    · exact absurd rfl hne
    · exact hrest
  · -- The new pole takes a slot for this round.
    refine .inl ?_
    rcases h with hle | ⟨hle, -⟩ <;> omega

omit hwidth hfits in
/-- The next round begins when a slot has been taken for all rounds so far. -/
theorem Counted.le_crowding (h : Counted site round [] p) (hne : endangered site p ≠ []) :
    round ≤ crowding site p := by
  rcases h with hle | ⟨-, hnone⟩
  · exact hle
  · exact absurd (List.eq_nil_iff_forall_not_mem.mpr fun d hd => List.not_mem_nil (hnone d hd)) hne

theorem Visits.counted (h : Visits site run (.relays round wires) p)
    (hroom : p.slots.size ≤ memoryLimit) : Counted site round wires p := by
  generalize hstage : Stage.relays round wires = stage at h
  induction h generalizing round wires with
  | expire _ _ _ =>
    cases hstage
    exact .inl (Nat.zero_le _)
  | round _ hne ih =>
    cases hstage
    exact .inr ⟨Nat.succ_le_succ ((ih hroom rfl).le_crowding hne), fun d hd => hd⟩
  | relay hp hq ih =>
    cases hstage
    rw [slots_relay hq] at hroom
    exact (ih hroom rfl).relay hwidth hfits hp.holds hroom hq
  | _ => cases hstage

/-- There are no more rounds for a slot than the limit allows. -/
theorem Visits.round_le (h : Visits site run (.relays round wires) p)
    (hroom : p.slots.size ≤ memoryLimit) : round ≤ roundLimit site := by
  have hlt := h.holds.reached.agrees.crowding_lt hwidth hfits
  rcases h.counted hwidth hfits hroom with hle | ⟨hle, -⟩ <;> omega

/-- As long as a wire is left to be relayed, the limit is not reached. -/
theorem Visits.round_lt (h : Visits site run (.relays round []) p)
    (hroom : p.slots.size ≤ memoryLimit) (hne : endangered site p ≠ []) :
    round < roundLimit site :=
  Nat.lt_of_le_of_lt ((h.counted hwidth hfits hroom).le_crowding hne)
    (h.holds.reached.agrees.crowding_lt hwidth hfits)

end

/-! ### The loop without a limit -/

/-- One round of relaying, whatever the number of rounds for the same slot is. -/
def unguardedRound (site : Site) :
    Nat × Placement → (Nat × Placement) ⊕ Except LayoutFault Placement
  | (rounds, p) =>
    if (endangered site p).isEmpty then .inr (.ok p)
    else
      match relayEach site (rounds + 1) p (endangered site p) with
      | .ok q => .inl (rounds + 1, q)
      | .error fault => .inr (.error fault)

theorem relayRound_eq_unguardedRound (h : endangered site p ≠ [] → round < roundLimit site) :
    relayRound site (round, p) = unguardedRound site (round, p) := by
  by_cases hnone : (endangered site p).isEmpty
  · rw [relayRound, unguardedRound, if_pos hnone, if_pos hnone]
  · have hlt := h fun heq => hnone (List.isEmpty_iff.mpr heq)
    have hgoes : ¬ roundLimit site < round + 1 := by omega
    cases hrelay : relayEach site (round + 1) p (endangered site p) <;>
      simp [relayRound, unguardedRound, hnone, hgoes, hrelay]

/-- How the relaying before a slot ends after some rounds: no wire is left in danger, or a wire of
the next round cannot be relayed. -/
inductive Settles (site : Site) (run slot rounds : Nat) : Except LayoutFault Placement → Prop
  | done {q : Placement} : Visits site run (.relays rounds []) q → q.slots.size = slot →
      endangered site q = [] → Settles site run slot rounds (.ok q)
  | full {q : Placement} {d : Endangered} {rest : List Endangered} :
      Visits site run (.relays (rounds + 1) (d :: rest)) q → q.slots.size = slot →
      FullWindow site q d → Settles site run slot rounds (.error (.tooComplex (rounds + 1) slot))

section

variable (hwidth : 2 ≤ site.width) (hfits : site.Fits) (hcolored : site.Colored)

include hwidth hfits hcolored

/-- Where all wires have colors, a round fails for a full window only. -/
theorem Visits.fullWindow (h : Visits site run (.relays round (d :: rest)) p) {fault : LayoutFault}
    (hq : Placement.relay site round p d = .error fault) :
    fault = .tooComplex round p.slots.size ∧
      (p.slots.size ≤ memoryLimit → FullWindow site p d) := by
  have hrelaying : Relaying site (d :: rest) p := h.holds
  obtain ⟨e, id, hd⟩ := hrelaying.threatened d List.mem_cons_self
  rcases fullWindow_of_relay hwidth hfits hrelaying.reached (mem_endangered.mpr ⟨e, id, hd⟩) hq with
    ⟨-, hnone⟩ | hfull
  · have hsome := hrelaying.reached.isSome_of_open hcolored hd.opened
    rw [hnone] at hsome
    cases hsome
  · exact hfull

/-- A round is the last one, or it leads to a visited state after which the next one may begin. -/
theorem Visits.unguardedRound_cases (h : Visits site run (.relays round []) p)
    (hroom : p.slots.size ≤ memoryLimit) :
    (∃ result, unguardedRound site (round, p) = .inr result ∧
      Settles site run p.slots.size round result) ∨
    ∃ q, unguardedRound site (round, p) = .inl (round + 1, q) ∧
      Visits site run (.relays (round + 1) []) q ∧ q.slots = p.slots := by
  by_cases hnone : endangered site p = []
  · exact .inl ⟨.ok p, by simp [unguardedRound, hnone], .done h rfl hnone⟩
  · have hbegin := h.round hnone
    cases hrelay : Placement.relayEach site (round + 1) p (endangered site p) with
    | error fault =>
      obtain ⟨q, d, rest, hq, hslots, hd⟩ := hbegin.exists_relay_error hrelay
      obtain ⟨rfl, hfull⟩ := hq.fullWindow hwidth hfits hcolored hd
      refine .inl ⟨_, ?_, .full hq (congrArg Array.size hslots) (hfull (hslots ▸ hroom))⟩
      simp [unguardedRound, hnone, hrelay, hslots]
    | ok q =>
      exact .inr ⟨q, by simp [unguardedRound, hnone, hrelay], hbegin.relayEach hrelay,
        slots_relayEach hrelay⟩

/-- The loop with the limit goes through the same rounds as the one without it. -/
theorem Visits.ends_unguardedRound (h : Visits site run (.relays round []) p)
    (hroom : p.slots.size ≤ memoryLimit) {rounds : Nat} {result : Except LayoutFault Placement}
    (hends : Ends (relayRound site) (round, p) rounds result) :
    Ends (unguardedRound site) (round, p) rounds result ∧
      Settles site run p.slots.size (round + rounds) result := by
  generalize hstate : (round, p) = state at hends
  induction hends generalizing round p with
  | stop hstop =>
    subst hstate
    rw [relayRound_eq_unguardedRound (h.round_lt hwidth hfits hroom)] at hstop
    rcases h.unguardedRound_cases hwidth hfits hcolored hroom with
      ⟨result, hround, hsettles⟩ | ⟨q, hround, -⟩
    · cases hround.symm.trans hstop
      exact ⟨.stop hround, hsettles⟩
    · cases hround.symm.trans hstop
  | goOn hgo _ ih =>
    subst hstate
    rw [relayRound_eq_unguardedRound (h.round_lt hwidth hfits hroom)] at hgo
    rcases h.unguardedRound_cases hwidth hfits hcolored hroom with
      ⟨result, hround, -⟩ | ⟨q, hround, hq, hslots⟩
    · cases hround.symm.trans hgo
    · cases hround.symm.trans hgo
      obtain ⟨hends, hsettles⟩ := ih hq (hslots ▸ hroom) rfl
      rw [hslots, Nat.add_right_comm] at hsettles
      exact ⟨.goOn hround hends, hsettles⟩

/-! ### What the pass fails for -/

omit hwidth hfits hcolored in
/-- Only a color can be missing when a contact is placed. -/
theorem connect_eq_error {contact : Contact} {fault : LayoutFault}
    (h : connect site slot p wire contact = .error fault) : fault = .uncolored wire := by
  simp only [connect, draw, colorOf] at h
  cases hopen : p.openEnds.get? wire with
  | none =>
    rw [hopen] at h
    cases h
  | some e =>
    rw [hopen] at h
    cases hcolor : site.colors.get? wire with
    | none =>
      rw [hcolor] at h
      cases h
      rfl
    | some color =>
      rw [hcolor] at h
      cases h

/-- The pass is too complex where a wire cannot be relayed, or after too many poles in a row. -/
theorem exists_of_layout_tooComplex {iterations : Nat} (hroom : slot ≤ memoryLimit)
    (h : site.layout = .error (.tooComplex iterations slot)) :
    (∃ run p d rest, Visits site run (.relays iterations (d :: rest)) p ∧ p.slots.size = slot ∧
      FullWindow site p d) ∨
    runLimit site < iterations ∧ ∃ p, Visits site iterations (.contacts slot []) p := by
  have hfails := leads_layout site
  rw [h] at hfails
  generalize hfault : LayoutFault.tooComplex iterations slot = fault at hfails
  cases hfails with
  | relay hvisits hq =>
    obtain ⟨rfl, hfull⟩ := hvisits.fullWindow hwidth hfits hcolored hq
    cases hfault
    exact .inl ⟨_, _, _, _, hvisits, rfl, hfull hroom⟩
  | rounds hvisits hne hlimit =>
    cases hfault
    exact absurd (hvisits.round_lt hwidth hfits hroom hne) (Nat.not_lt_of_le hlimit)
  | connect _ hq =>
    rw [← hfault] at hq
    cases connect_eq_error hq
  | run hvisits hlong =>
    cases hfault
    exact .inr ⟨hlong, _, hvisits⟩

end

end Placement

/-- Where all wires have colors and the cube of the width fits in a word, the relaying before a slot
ends without a limit to its rounds, and with the same result as with the limit, which is the square
of the width: no wire is left in danger, or one of them can neither join a recent pole nor have a
free slot for a new one. The limit is never exceeded, so the pass is too complex only for such a
wire, or for a run of poles that is longer than the cube of the width. -/
theorem Network.relaying_ends (n : Network) (settings : LayoutSettings) (colors : NameMap Color)
    (hcolored : (n.site settings colors).Colored) (hfits : (n.site settings colors).Fits) :
    let site := n.site settings colors
    (∀ run p, Placement.Visits site run .slot p → p.next < n.nodes.length →
      p.slots.size ≤ memoryLimit → ∃ rounds,
      Ends (Placement.unguardedRound site) (0, p.expire) rounds
        (Placement.settle site (Placement.roundLimit site) p.expire) ∧
      Ends (Placement.relayRound site) (0, p.expire) rounds
        (Placement.settle site (Placement.roundLimit site) p.expire) ∧
      Placement.Settles site run p.slots.size rounds
        (Placement.settle site (Placement.roundLimit site) p.expire)) ∧
    (∀ run round wires p, Placement.Visits site run (.relays round wires) p →
      p.slots.size ≤ memoryLimit → round ≤ max settings.cliqueSize 2 ^ 2) ∧
    (∀ run round p, Placement.Visits site run (.relays round []) p → p.slots.size ≤ memoryLimit →
      Placement.endangered site p ≠ [] → ¬ max settings.cliqueSize 2 ^ 2 < round + 1) ∧
    ∀ iterations slot, site.layout = .error (.tooComplex iterations slot) → slot ≤ memoryLimit →
      (∃ run p d rest, Placement.Visits site run (.relays iterations (d :: rest)) p ∧
        p.slots.size = slot ∧ Placement.FullWindow site p d) ∨
      max settings.cliqueSize 2 ^ 3 < iterations ∧ ∃ (p : Placement) (cells : List Cell)
        (poles : List Nat), Placement.Visits site iterations (.contacts slot []) p ∧
        p.slots.size = slot + 1 ∧ p.slots.toList = cells ++ poles.map .pole ∧
        poles.length = iterations := by
  intro site
  have hwidth : 2 ≤ site.width := n.two_le_width_site settings colors
  have hround : Placement.roundLimit site = max settings.cliqueSize 2 ^ 2 := by
    rw [Placement.roundLimit_eq hfits hwidth, pow_two]
    rfl
  have hrun : Placement.runLimit site = max settings.cliqueSize 2 ^ 3 := by
    rw [Placement.runLimit_eq hfits, pow_succ, pow_two]
    rfl
  rw [← hround, ← hrun, ← n.size_connections_site settings colors]
  refine ⟨fun run p hp hnext hroom => ?_,
    fun run round wires p hp hroom => hp.round_le hwidth hfits hroom,
    fun run round p hp hroom hne => Nat.not_lt_of_le (hp.round_lt hwidth hfits hroom hne),
    fun iterations slot hfault hroom => ?_⟩
  · obtain ⟨rounds, -, hends⟩ :=
      Placement.exists_ends_settle (Nat.le_refl (Placement.roundLimit site)) p.expire
    rw [Nat.sub_self] at hends
    obtain ⟨hends', hsettles⟩ :=
      (hp.expire hnext).ends_unguardedRound hwidth hfits hcolored hroom hends
    rw [Nat.zero_add] at hsettles
    exact ⟨rounds, hends', hends, hsettles⟩
  · have hcauses := Placement.exists_of_layout_tooComplex hwidth hfits hcolored hroom hfault
    refine hcauses.imp_right ?_
    rintro ⟨hlong, p, hp⟩
    obtain ⟨cells, poles, hslots, hlength⟩ := hp.exists_poles
    exact ⟨hlong, p, cells, poles, hp, hp.holds.size_slots, hslots, hlength⟩

/-- Five combinators, of which the first and the last share seven wires. -/
def Network.distantCable : Network :=
  let spacer : Node := ⟨.ofHeading "" 1, [], [], .nowhere, ∅⟩
  let cable := ["A", "B", "C", "D", "E", "F", "G"]
  { Network.empty {} with
    nodes := [{ spacer with outputs := cable }, spacer, spacer, spacer,
      { spacer with inputs := cable }] }

/-- In rows of two, with all wires red. -/
def Network.distantCableSite : Site :=
  distantCable.site ⟨2, 5⟩ (.ofList (["A", "B", "C", "D", "E", "F", "G"].map (·, .red)))

theorem Network.colored_distantCableSite : distantCableSite.Colored := by
  show ∀ connections ∈ distantCableSite.connections, ∀ c ∈ connections,
    (distantCableSite.colors.get? c.wire).isSome
  decide +kernel

/-- The three slots that the first one reaches have room for six of the wires only. -/
theorem Network.relaying_ends_distantCable :
    distantCableSite.layout = .error (.tooComplex 1 1) ∧
      ∃ run p d rest, Placement.Visits distantCableSite run (.relays 1 (d :: rest)) p ∧
        p.slots.size = 1 ∧ Placement.FullWindow distantCableSite p d := by
  have hfault : distantCableSite.layout = .error (.tooComplex 1 1) := by decide +kernel
  refine ⟨hfault, ?_⟩
  obtain ⟨-, -, -, hcomplex⟩ :=
    relaying_ends distantCable ⟨2, 5⟩ _ colored_distantCableSite (by decide)
  rcases hcomplex 1 1 hfault (by decide) with hfull | ⟨hlong, -⟩
  · exact hfull
  · exact absurd hlong (by decide)

/-- Rows so long that the limit to the rounds wraps around to 0, and the end of the window of a slot
in the second row to the end of the first row. -/
def limitlessRows : LayoutSettings := ⟨0x100000000, 5⟩

/-- Where the square of the width wraps around, the limit stops the first round. A build with
overflow checks panics. -/
theorem Network.limit_stops_relaying :
    let site := (pairBehind 0x100000000).site limitlessRows (.ofList [("A", .red)])
    site.Colored ∧
      (∃ p, Placement.Visits site 0 (.relays 0 []) p ∧ Placement.endangered site p ≠ [] ∧
        Placement.roundLimit site < 0 + 1 ∧
        Placement.relayRound site (0, p) = .inr (.error (.tooComplex 1 0x100000001))) ∧
      site.layout = .error (.tooComplex 1 0x100000001) ∧ site.layoutChecked.run = none := by
  intro site
  have hlimit : Placement.roundLimit site = 0 := by
    show wrapped (0x100000000 * 0x100000000) = 0
    decide
  obtain ⟨⟨p, hvisits, hnext, hsize, hne⟩, hfault⟩ :=
    layout_pairBehind 0x100000000 limitlessRows (by decide)
  have hlong : ¬ site.Fits := by
    show ¬ 0x100000000 * 0x100000000 * 0x100000000 < wordSize
    decide
  refine ⟨colored_pairBehind _ _, ⟨p.expire, hvisits.expire hnext, hne, ?_, ?_⟩, hfault,
    Site.run_layoutChecked_eq_none hlong⟩
  · rw [hlimit]
    exact Nat.one_pos
  · have hsome : ¬ (Placement.endangered site p.expire).isEmpty := fun hnone =>
      hne (List.isEmpty_iff.mp hnone)
    have hslots : p.expire.slots.size = 0x100000001 := hsize
    rw [Placement.relayRound, if_neg hsome, hlimit, if_pos Nat.one_pos, hslots]

end CombinatorNet
