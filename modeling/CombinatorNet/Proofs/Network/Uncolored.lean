import CombinatorNet.Proofs.Network.Locations

/-!
# Colors that layouts need

A layout needs the colors of the wires that join contacts, and no others. The colors of a network
are those of all wires that it has met but the channels, which stand for colors themselves. So a
network can be laid out with its own colors unless a channel is used as a wire.

## Main results

* `Network.Reachable.channel_of_finalize` — only for a channel is a color of the network missing
* `Network.missing_color_reported` — just the missing colors of wires that join contacts are
  reported
-/

namespace CombinatorNet.Network

variable {n : Network}

/-- With the colors of the network, only the color of a channel can be missing. -/
theorem Reachable.channel_of_finalize (h : Reachable n) {wire : String}
    (hfault : n.finalize = .error (.layout (.uncolored wire))) :
    (∃ color : Color, wire = color.channel) ∧ 2 ≤ (n.contacts wire).length := by
  obtain ⟨fault, heq, hlayout⟩ := finalize_eq_error hfault
  cases heq
  obtain ⟨hjoins, hnone⟩ := Site.lacks_of_layout hlayout
  refine ⟨?_, by rwa [contacts_site] at hjoins⟩
  by_contra hchannel
  -- The wire is on a side of a combinator, so the network has met it and has a color for it.
  obtain ⟨contact, hcontact⟩ := List.exists_mem_of_length_pos (Nat.zero_lt_of_lt hjoins)
  obtain ⟨connections, hmem, c, hc, rfl⟩ := Site.exists_connection_of_contacts hcontact
  obtain ⟨sides, hsides, hwire⟩ := exists_sides_of_connection hmem hc
  have hcolor := h.isSome_get?_colors hsides hwire fun color heq => hchannel ⟨color, heq⟩
  rw [show n.colors.get? c.wire = none from hnone] at hcolor
  cases hcolor

/-- Whatever the colors and the settings are, no network is laid out while a wire with at least two
contacts has no color. If a layout fails for the color of a wire, then the wire has at least two
contacts and no color, so no layout does when all such wires have colors. With the colors of a
network itself, this happens only to the channels. -/
theorem missing_color_reported (n : Network) (settings : LayoutSettings) (colors : NameMap Color) :
    (∀ wire, 2 ≤ (n.contacts wire).length → colors.get? wire = none →
      ∀ l, (n.site settings colors).layout ≠ .ok l) ∧
    (∀ wire, (n.site settings colors).layout = .error (.uncolored wire) →
      2 ≤ (n.contacts wire).length ∧ colors.get? wire = none) ∧
    ((∀ wire, 2 ≤ (n.contacts wire).length → (colors.get? wire).isSome) →
      ∀ wire, (n.site settings colors).layout ≠ .error (.uncolored wire)) ∧
    (n.Reachable → ∀ wire, n.finalize = .error (.layout (.uncolored wire)) →
      (∃ color : Color, wire = color.channel) ∧ 2 ≤ (n.contacts wire).length) := by
  have hlacks : ∀ wire, (n.site settings colors).layout = .error (.uncolored wire) →
      2 ≤ (n.contacts wire).length ∧ colors.get? wire = none := by
    intro wire h
    obtain ⟨hjoins, hnone⟩ := Site.lacks_of_layout h
    rw [contacts_site] at hjoins
    exact ⟨hjoins, hnone⟩
  refine ⟨fun wire hjoins hnone l hl => ?_, hlacks, fun hcolors wire h => ?_,
    fun h wire => h.channel_of_finalize⟩
  · rw [← n.contacts_site settings colors] at hjoins
    have hcolor := Site.isSome_of_layout hl hjoins
    rw [show (n.site settings colors).colors.get? wire = none from hnone] at hcolor
    cases hcolor
  · obtain ⟨hjoins, hnone⟩ := hlacks wire h
    have hcolor := hcolors wire hjoins
    rw [hnone] at hcolor
    cases hcolor

/-- A combinator that reads a channel and writes to it. -/
def channelLoop : Network :=
  (empty {}).serveAll [.add (.ofHeading "x" 1) [redChannel] [redChannel] .nowhere]

theorem reachable_channelLoop : Reachable channelLoop :=
  have hempty : ofStatements [] {} = .ok (empty {}) := rfl
  (Reachable.ofStatements hempty).serveAll _

theorem finalize_channelLoop :
    channelLoop.finalize = .error (.layout (.uncolored redChannel)) := by
  have hnone : channelLoop.layout = none := rfl
  have hfault : (channelLoop.site channelLoop.settings channelLoop.colors).layout =
      .error (.uncolored redChannel) := by decide +kernel
  simp only [finalize, hnone, hfault]

/-- A channel that is used as a wire has no color, also among those of the network. -/
theorem exists_finalize_uncolored :
    ∃ n : Network, n.Reachable ∧ n.finalize = .error (.layout (.uncolored redChannel)) :=
  ⟨channelLoop, reachable_channelLoop, finalize_channelLoop⟩

/-- A wire that joins two combinators, and another one that leads nowhere. -/
def strayWire : Network :=
  { empty {} with
    nodes := [⟨.ofHeading "" 1, [], ["A"], .nowhere, ∅⟩,
      ⟨.ofHeading "" 1, ["A"], ["B"], .nowhere, ∅⟩] }

theorem missing_color_reported_strayWire :
    (strayWire.site {} ∅).layout = .error (.uncolored "A") ∧
    (∀ l, (strayWire.site {} ∅).layout ≠ .ok l) ∧
    (2 ≤ (strayWire.contacts "A").length ∧ (∅ : NameMap Color).get? "A" = none) ∧
    (strayWire.contacts "B").length = 1 ∧
    (∀ wire, (strayWire.site {} (.ofList [("A", .red)])).layout ≠ .error (.uncolored wire)) ∧
    (∃ color : Color, redChannel = color.channel) ∧
    2 ≤ (channelLoop.contacts redChannel).length := by
  have hfault : (strayWire.site {} ∅).layout = .error (.uncolored "A") := by decide +kernel
  have hcontacts : ∀ wire, 2 ≤ (strayWire.contacts wire).length → wire = "A" := by
    intro wire h
    by_contra hne
    have hne' : "A" ≠ wire := fun heq => hne heq.symm
    by_cases hwire : "B" = wire <;> simp [contacts, strayWire, hne', hwire] at h
  refine ⟨hfault, (missing_color_reported strayWire {} ∅).1 "A" (by decide) (by decide),
    (missing_color_reported strayWire {} ∅).2.1 "A" hfault, by decide,
    (missing_color_reported strayWire {} _).2.2.1 fun wire h => ?_,
    (missing_color_reported channelLoop {} ∅).2.2.2 reachable_channelLoop redChannel
      finalize_channelLoop⟩
  rw [hcontacts wire h]
  decide

end CombinatorNet.Network
