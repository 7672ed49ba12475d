import CombinatorNet.Proofs.Layout.Cells
import CombinatorNet.Proofs.Loops
import Mathlib.Algebra.Group.Nat.Defs

/-!
# The pass ends

Three loops are nested in the pass. A prediction moves on past one more pole in each round. The
rounds of relaying before a slot are counted. The slots themselves are not bounded by what is to be
placed alone, since open wires may be relayed again and again; but the poles between two combinators
are counted as well, so that there are at most so many slots for each combinator.

## Main definitions

* `moveOn`, `Placement.relayRound`, `Placement.nextSlot` — the bodies of the three loops
* `Placement.Paced` — there are not too many slots for the combinators placed so far

## Main results

* `exists_ends_predict`, `Placement.exists_ends_settle` — the inner loops end
* `Placement.Paced.fill` — filling a slot keeps the pace
* `Placement.roundLimit_le`, `Placement.runLimit_le` — the limits of the pass
* `Network.layout_ends` — the pass ends, with a bounded number of slots
-/

namespace CombinatorNet

/-! ### Predictions -/

variable {schedule : List ScheduledPole} {first slot : Nat}

/-- One round of a prediction: a slot stays where it is if it leaves room for the poles up to it. -/
def moveOn (schedule : List ScheduledPole) (first wanted slot : Nat) : Nat ⊕ Nat :=
  if wanted + scheduledWithin schedule first slot = slot then .inr slot
  else .inl (wanted + scheduledWithin schedule first slot)

/-- Each round but the last passes a pole, so there are no more rounds than poles. -/
theorem exists_ends_makeRoom {wanted rounds : Nat}
    (hslot : slot ≤ wanted + scheduledWithin schedule first slot)
    (hrounds : wanted + schedule.length < rounds + slot) :
    ∃ moves, slot + moves ≤ wanted + schedule.length ∧
      Ends (moveOn schedule first wanted) slot moves
        (makeRoom schedule first wanted rounds slot) := by
  have hle := scheduledWithin_le_length schedule first slot
  induction rounds generalizing slot with
  | zero => omega
  | succ rounds ih =>
    rw [makeRoom]
    split
    · next h => exact ⟨0, by omega, .stop (if_pos h)⟩
    · next h =>
      have hmoved : slot < wanted + scheduledWithin schedule first slot := by omega
      obtain ⟨moves, hmoves, hends⟩ := ih
        (Nat.add_le_add_left (scheduledWithin_mono (Nat.le_of_lt hmoved)) _) (by omega)
        (scheduledWithin_le_length _ _ _)
      exact ⟨moves + 1, by omega, .goOn (if_neg h) hends⟩

/-- A prediction takes no more rounds than there are poles. -/
theorem exists_ends_predict (schedule : List ScheduledPole) (first offset : Nat) :
    ∃ rounds ≤ schedule.length, Ends (moveOn schedule first (first + offset)) (first + offset)
      rounds (predict schedule first offset) := by
  have hslot : first + offset ≤
      first + offset + scheduledWithin schedule first (first + offset) := Nat.le_add_right _ _
  have hrounds : first + offset + schedule.length < schedule.length + 1 + (first + offset) := by
    omega
  obtain ⟨moves, hmoves, hends⟩ := exists_ends_makeRoom hslot hrounds
  exact ⟨moves, by omega, hends⟩

theorem Site.fits_iff (site : Site) : site.Fits ↔ site.width ^ 3 < wordSize := by
  rw [Fits, pow_succ, pow_two]

namespace Placement

variable {site : Site} {p q : Placement} {run run' : Nat}

/-! ### Rounds of relaying

The limits are what words keep of the square and of the cube of the width, so they are never more
than these. -/

theorem roundLimit_le (site : Site) : roundLimit site ≤ site.width ^ 2 :=
  pow_two site.width ▸ wrapped_le _

theorem runLimit_le (site : Site) : runLimit site ≤ site.width ^ 3 := by
  rw [pow_succ, pow_two]
  exact wrapped_le _

/-- One round of relaying, after a number of rounds for the same slot. -/
def relayRound (site : Site) :
    Nat × Placement → (Nat × Placement) ⊕ Except LayoutFault Placement
  | (rounds, p) =>
    if (endangered site p).isEmpty then .inr (.ok p)
    else if roundLimit site < rounds + 1 then
      .inr (.error (.tooComplex (rounds + 1) p.slots.size))
    else
      match relayEach site (rounds + 1) p (endangered site p) with
      | .ok q => .inl (rounds + 1, q)
      | .error fault => .inr (.error fault)

/-- Relaying ends when the rounds that are left are over, if not before. -/
theorem exists_ends_settle {left : Nat} (hleft : left ≤ roundLimit site) (p : Placement) :
    ∃ rounds ≤ left, Ends (relayRound site) (roundLimit site - left, p) rounds
      (settle site left p) := by
  induction left generalizing p with
  | zero =>
    refine ⟨0, Nat.le_refl _, .stop ?_⟩
    rw [relayRound, settle]
    split
    · rfl
    · rw [if_pos (by omega)]
      rfl
  | succ left ih =>
    have hround : roundLimit site - (left + 1) + 1 = roundLimit site - left := by omega
    have hgoes : ¬ roundLimit site < roundLimit site - left := by omega
    cases hwires : endangered site p with
    | nil =>
      refine ⟨0, Nat.zero_le _, .stop ?_⟩
      simp only [relayRound, settle, hwires, List.isEmpty_nil, if_true]
    | cons d rest =>
      cases hrelay : relayEach site (roundLimit site - left) p (d :: rest) with
      | error fault =>
        refine ⟨0, Nat.zero_le _, .stop ?_⟩
        simp [relayRound, settle, hwires, hround, hrelay, hgoes, bind, Except.bind]
      | ok q =>
        obtain ⟨rounds, hrounds, hends⟩ := ih (Nat.le_of_succ_le hleft) q
        have hsettle : settle site (left + 1) p = settle site left q := by
          simp [settle, hwires, hrelay, bind, Except.bind]
        refine ⟨rounds + 1, Nat.succ_le_succ hrounds, hsettle ▸ .goOn ?_ hends⟩
        simp [relayRound, hwires, hround, hrelay, hgoes]

/-! ### Slots -/

/-- One round of the pass fills a slot, unless all combinators are placed. -/
def nextSlot (site : Site) :
    Placement × Nat → (Placement × Nat) ⊕ Except LayoutFault Placement
  | (p, run) =>
    if p.next < site.connections.size then
      match fill site p run with
      | .ok r => .inl r
      | .error fault => .inr (.error fault)
    else .inr (.ok p)

/-- Relaying a wire fills no slot. -/
theorem slots_relay {round : Nat} {d : Endangered} (h : relay site round p d = .ok q) :
    q.slots = p.slots := by
  obtain ⟨color, -, h⟩ := bind_eq_ok.mp h
  split at h
  · cases h; rfl
  · split at h
    · cases h; rfl
    · cases h

theorem slots_relayEach {round : Nat} {ds : List Endangered}
    (h : relayEach site round p ds = .ok q) : q.slots = p.slots := by
  induction ds generalizing p with
  | nil => cases h; rfl
  | cons d ds ih =>
    obtain ⟨mid, h₁, h₂⟩ := bind_eq_ok.mp h
    rw [ih h₂, slots_relay h₁]

theorem slots_settle {left : Nat} (h : settle site left p = .ok q) : q.slots = p.slots := by
  induction left generalizing p with
  | zero =>
    rw [settle] at h
    split at h
    · cases h; rfl
    · cases h
  | succ left ih =>
    rw [settle] at h
    split at h
    · cases h; rfl
    · obtain ⟨mid, h₁, h₂⟩ := bind_eq_ok.mp h
      rw [ih h₂, slots_relayEach h₁]

/-- Whatever is placed, it takes one slot. -/
theorem size_slots_fill (h : fill site p run = .ok (q, run')) :
    q.slots.size = p.slots.size + 1 := by
  obtain ⟨mid, hmid, h⟩ := bind_eq_ok.mp h
  have hslots : mid.slots.size = p.slots.size := by
    rw [slots_settle hmid]
    rfl
  rw [← hslots]
  split at h
  · obtain ⟨placed, hplaced, h⟩ := bind_eq_ok.mp h
    rw [placePole_eq] at hplaced
    obtain ⟨queues, openEnds, segments, rfl⟩ := connectEach_frame hplaced
    split at h
    · cases h
    · cases h
      exact Array.size_push _
  · obtain ⟨placed, hplaced, h⟩ := bind_eq_ok.mp h
    rw [placeCombinator_eq] at hplaced
    obtain ⟨queues, openEnds, segments, rfl⟩ := connectEach_frame hplaced
    cases h
    exact Array.size_push _

/-- There are no more slots than the combinators placed so far take, each with the longest run of
poles before it, and the poles of the current run. A run is followed by a combinator. -/
structure Paced (site : Site) (p : Placement) (run : Nat) : Prop where
  slots_le : p.slots.size ≤ p.next * (runLimit site + 1) + run
  run_le : run ≤ runLimit site
  next_le : p.next ≤ site.connections.size
  unfinished : 0 < run → p.next < site.connections.size

theorem paced_initial (site : Site) : Paced site (initial site) 0 :=
  ⟨Nat.le_of_eq (Nat.zero_mul _).symm, Nat.zero_le _, Nat.zero_le _, nofun⟩

theorem Paced.fill (h : Paced site p run) (hnext : p.next < site.connections.size)
    (hq : fill site p run = .ok (q, run')) : Paced site q run' := by
  have hsize := size_slots_fill hq
  have hslots := h.slots_le
  have hrun := h.run_le
  rcases next_fill hq with ⟨hplaced, rfl, hrun'⟩ | ⟨hplaced, rfl⟩
  · refine ⟨?_, hrun', hplaced ▸ h.next_le, fun _ => hplaced ▸ hnext⟩
    rw [hsize, hplaced]
    omega
  · refine ⟨?_, Nat.zero_le _, hplaced ▸ hnext, nofun⟩
    rw [hsize, hplaced, Nat.add_mul]
    omega

theorem Paced.size_slots_le (h : Paced site p run) :
    p.slots.size ≤ site.connections.size * (runLimit site + 1) := by
  refine h.slots_le.trans ?_
  rcases Nat.eq_zero_or_pos run with rfl | hpos
  · exact Nat.mul_le_mul_right _ h.next_le
  · have hmul : (p.next + 1) * (runLimit site + 1) ≤
        site.connections.size * (runLimit site + 1) := Nat.mul_le_mul_right _ (h.unfinished hpos)
    have hrun := h.run_le
    rw [Nat.add_mul] at hmul
    omega

/-- The pass ends with the slots that it has filled by then. -/
theorem Paced.exists_ends (h : Paced site p run) :
    ∃ slots, Ends (nextSlot site) (p, run) slots (complete site p run) ∧
      p.slots.size + slots ≤ site.connections.size * (runLimit site + 1) ∧
      ∀ q, complete site p run = .ok q → q.slots.size = p.slots.size + slots := by
  fun_induction complete site p run with
  | case1 p run hnext fault hfill =>
    refine ⟨0, .stop (by simp [nextSlot, hnext, hfill]), h.size_slots_le, fun q hq => ?_⟩
    cases hq
  | case2 p run hnext q run' hfill ih =>
    obtain ⟨slots, hends, hle, hsize⟩ := ih (h.fill hnext hfill)
    have hpushed := size_slots_fill hfill
    refine ⟨slots + 1, .goOn (by simp [nextSlot, hnext, hfill]) hends, by omega, fun r hr => ?_⟩
    rw [hsize r hr]
    omega
  | case3 p run hnext =>
    refine ⟨0, .stop (by simp [nextSlot, hnext]), h.size_slots_le, fun q hq => ?_⟩
    cases hq
    rfl

end Placement

/-- Whatever the colors and the settings are, the pass over the slots ends, with a layout or with a
fault, before it has filled as many slots as the combinators take with the longest run of poles
before each of them and a last run that is too long. A build with overflow checks comes to the same
where the cube of the width fits in a word. At every slot the relaying ends after as many rounds as
the square of the width at most, and a prediction after as many rounds as there are poles to pass.
In a layout there are only the slots of the combinators and of the runs before them. -/
theorem Network.layout_ends (n : Network) (settings : LayoutSettings) (colors : NameMap Color) :
    (∃ slots result,
      Ends (Placement.nextSlot (n.site settings colors)) (.initial (n.site settings colors), 0)
        slots result ∧
      slots < n.nodes.length * (max settings.cliqueSize 2 ^ 3 + 1) +
        max settings.cliqueSize 2 ^ 3 + 1 ∧
      (n.site settings colors).layout = result.map (·.toLayout (n.site settings colors)) ∧
      (max settings.cliqueSize 2 ^ 3 < wordSize → (n.site settings colors).layoutChecked.run =
        some (result.map (·.toLayout (n.site settings colors))))) ∧
    (∀ p, ∃ rounds ≤ max settings.cliqueSize 2 ^ 2,
      Ends (Placement.relayRound (n.site settings colors)) (0, p) rounds
        (Placement.settle (n.site settings colors)
          (Placement.roundLimit (n.site settings colors)) p)) ∧
    (∀ schedule first offset, ∃ rounds ≤ schedule.length,
      Ends (moveOn schedule first (first + offset)) (first + offset) rounds
        (predict schedule first offset)) ∧
    ∀ l, (n.site settings colors).layout = .ok l →
      l.slots.size ≤ n.nodes.length * (max settings.cliqueSize 2 ^ 3 + 1) := by
  have hrun := Placement.runLimit_le (n.site settings colors)
  have hround := Placement.roundLimit_le (n.site settings colors)
  obtain ⟨slots, hends, hle, hsize⟩ :=
    (Placement.paced_initial (n.site settings colors)).exists_ends
  have hslots : slots ≤ n.nodes.length * (max settings.cliqueSize 2 ^ 3 + 1) := by
    rw [n.size_connections_site settings colors,
      show (Placement.initial (n.site settings colors)).slots.size = 0 from rfl, Nat.zero_add] at hle
    exact hle.trans (Nat.mul_le_mul_left _ (Nat.succ_le_succ hrun))
  have hlayout := (n.site settings colors).layout_eq_map
  refine ⟨⟨slots, _, hends, by omega, hlayout, fun hfits => ?_⟩, fun p => ?_, exists_ends_predict,
    fun l hl => ?_⟩
  · rw [← hlayout]
    exact ((n.site settings colors).fits_iff.mpr hfits).run_layoutChecked
  · obtain ⟨rounds, hrounds, hsettle⟩ := Placement.exists_ends_settle
      (Nat.le_refl (Placement.roundLimit (n.site settings colors))) p
    rw [Nat.sub_self] at hsettle
    exact ⟨rounds, hrounds.trans hround, hsettle⟩
  · obtain ⟨q, hq, h⟩ := Placement.bind_eq_ok.mp hl
    cases h
    show q.slots.size ≤ _
    rw [hsize q hq, show (Placement.initial (n.site settings colors)).slots.size = 0 from rfl]
    omega

theorem Network.layout_ends_distantPair :
    ∃ l, (distantPair.site ⟨2, 5⟩ (.ofList [("A", .red)])).layout = .ok l ∧
      (distantPair.site ⟨2, 5⟩ (.ofList [("A", .red)])).layoutChecked.run = some (.ok l) ∧
      l.slots.size = 8 ∧ 8 ≤ 6 * (max 2 2 ^ 3 + 1) := by
  have hsize : (distantPair.site ⟨2, 5⟩ (.ofList [("A", .red)])).layout.toOption.map
      (·.slots.size) = some 8 := by decide +kernel
  obtain ⟨l, hl, hslots⟩ := Layout.exists_of_toOption hsize
  obtain ⟨⟨slots, result, -, -, hlayout, hchecked⟩, -, -, hle⟩ :=
    layout_ends distantPair ⟨2, 5⟩ (.ofList [("A", .red)])
  rw [← hlayout, hl] at hchecked
  exact ⟨l, hl, hchecked (by decide), hslots, hslots ▸ hle l hl⟩

/-- With overflow checks, the widest rows are laid out if there is nothing in them, and wider ones
are not. -/
theorem Network.empty_panics :
    (((empty {}).site ⟨2642245, 5⟩ ∅).layoutChecked.run.map fun result =>
        result.map (·.slots.size)) = some (.ok 0) ∧
      ((empty {}).site ⟨2642246, 5⟩ ∅).layoutChecked.run = none := by
  decide +kernel

end CombinatorNet
