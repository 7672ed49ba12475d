import CombinatorNet.Network.Checked
import CombinatorNet.Proofs.Layout.Termination
import CombinatorNet.Proofs.Network.Calls
import CombinatorNet.Proofs.Signal.Literals

/-!
# Where overflow checks panic

With overflow checks, compiling panics exactly if it comes to a constant whose sums do not fit in
their words, or to the layout of a network with too wide rows. An error in front of these is
reported as in a release build.

## Main definitions

* `Network.Overflows` — building some statements comes to sums that do not fit

## Main results

* `Request.sumsFit_iff` — which requests have sums that fit
* `Network.run_performEachChecked_eq_none_iff` — building panics exactly if it comes to such sums
* `Network.fresh_of_ofStatements` — a network that has just been built has no layout yet
* `Program.run_compileChecked_eq_none_iff` — what makes compiling a program panic
-/

namespace CombinatorNet

/-- Only the sums of a constant can be too large. -/
theorem Request.sumsFit_iff {r : Request} : r.sumsFit = true ↔
    ∀ drive values outputs, r = .constant drive values outputs → SignalSet.SumsFit values := by
  cases r with
  | constant drive values outputs =>
    have hsome : (SignalSet.collectChecked values).isSome ↔ SignalSet.SumsFit values := by
      rw [Option.isSome_iff_exists]
      exact ⟨fun ⟨s, hs⟩ => (SignalSet.collectChecked_eq_some_iff.mp hs).1,
        fun hfit => ⟨_, SignalSet.collectChecked_eq_some_iff.mpr ⟨hfit, rfl⟩⟩⟩
    refine hsome.trans ⟨fun hfit drive' values' outputs' heq => ?_, fun h => h _ _ _ rfl⟩
    cases heq
    exact hfit
  | _ => exact iff_of_true rfl nofun

namespace Network

variable {n m : Network}

/-- Building some statements comes to one with a sum that does not fit in its word. -/
def Overflows (n : Network) (statements : List Statement) : Prop :=
  ∃ before s rest, statements = before ++ s :: rest ∧ (∃ m, n.performEach before = .ok m) ∧
    s.request.sumsFit = false

theorem overflows_cons_iff {s : Statement} {rest : List Statement} :
    n.Overflows (s :: rest) ↔
      s.request.sumsFit = false ∨ ∃ m, n.perform s = .ok m ∧ m.Overflows rest := by
  constructor
  · rintro ⟨before, s', rest', heq, ⟨m, hm⟩, hno⟩
    cases before with
    | nil =>
      cases heq
      exact .inl hno
    | cons first before =>
      cases heq
      obtain ⟨mid, hmid, hm⟩ := exists_of_performEach_cons hm
      exact .inr ⟨mid, hmid, before, s', rest', rfl, ⟨m, hm⟩, hno⟩
  · rintro (hno | ⟨mid, hmid, before, s', rest', rfl, ⟨m, hm⟩, hno⟩)
    · exact ⟨[], s, rest, rfl, ⟨n, rfl⟩, hno⟩
    · refine ⟨s :: before, s', rest', rfl, ⟨m, ?_⟩, hno⟩
      rw [performEach, hmid]
      exact hm

/-- Building panics exactly if it comes to a sum that does not fit. -/
theorem run_performEachChecked_eq_none_iff {statements : List Statement} :
    (n.performEachChecked statements).run = none ↔ n.Overflows statements := by
  -- By induction on the statements, with the network that those before have made.
  induction statements generalizing n with
  | nil =>
    refine iff_of_false nofun ?_
    rintro ⟨before, s, rest, heq, -⟩
    exact List.append_ne_nil_of_right_ne_nil _ (List.cons_ne_nil _ _) heq.symm
  | cons s rest ih =>
    rw [performEachChecked, Checked.run_bind_eq_none_iff, performChecked, Checked.run_ifFits,
      overflows_cons_iff]
    cases hfits : s.request.sumsFit with
    | false => simp
    | true => simp [ih]

/-! ### Networks that have just been built -/

theorem isDemand_of_mem_calls {s : Statement} {call : NetworkCall} (h : call ∈ s.calls) :
    call.isDemand = true := by
  rw [Statement.calls] at h
  cases hr : s.request with
  | binary inputs expr outputs =>
    rw [hr] at h
    cases hexpr : Combinator.ofExpr expr with
    | error fault =>
      simp only [hexpr] at h
      cases h
    | ok c =>
      simp only [hexpr, List.mem_singleton] at h
      exact h ▸ rfl
  | paint color wires =>
    rw [hr] at h
    obtain ⟨wire, -, rfl⟩ := List.mem_map.mp h
    rfl
  | instantiate name bindings =>
    rw [hr] at h
    cases h
  | _ =>
    rw [hr] at h
    exact List.mem_singleton.mp h ▸ rfl

/-- A demand leaves the settings, and computes no layout. -/
theorem fresh_serve {call : NetworkCall} (h : call.isDemand = true) (hnone : n.layout = none) :
    (n.serve call).2.layout = none ∧ (n.serve call).2.settings = n.settings := by
  cases call with
  | add c inputs outputs span =>
    rw [serve]
    rcases n.add_cases c inputs outputs span with ⟨_, -, heq⟩ | ⟨-, heq⟩ <;> rw [heq]
    · exact ⟨hnone, rfl⟩
    · exact ⟨rfl, rfl⟩
  | paint wire color span =>
    rw [serve]
    rcases n.paint_cases wire color span with ⟨_, -, heq⟩ | ⟨-, heq⟩ <;> rw [heq]
    · exact ⟨hnone, rfl⟩
    · exact ⟨rfl, rfl⟩
  | _ => cases h

theorem fresh_serveAll {calls : List NetworkCall} (h : ∀ call ∈ calls, call.isDemand = true)
    (hnone : n.layout = none) :
    (n.serveAll calls).layout = none ∧ (n.serveAll calls).settings = n.settings := by
  induction calls generalizing n with
  | nil => exact ⟨hnone, rfl⟩
  | cons call calls ih =>
    obtain ⟨hcall, hcalls⟩ := List.forall_mem_cons.mp h
    obtain ⟨hlayout, hsettings⟩ := fresh_serve hcall hnone
    obtain ⟨hlayout', hsettings'⟩ := ih hcalls hlayout
    exact ⟨hlayout', hsettings'.trans hsettings⟩

/-- A network that has just been built has no layout yet. -/
theorem fresh_of_ofStatements {statements : List Statement} {settings : LayoutSettings}
    (h : ofStatements statements settings = .ok n) : n.layout = none ∧ n.settings = settings := by
  rw [serveAll_of_performEach h]
  refine fresh_serveAll (fun call hcall => ?_) rfl
  obtain ⟨s, -, hs⟩ := List.mem_flatMap.mp hcall
  exact isDemand_of_mem_calls hs

/-- The layout of a network that has just been built panics exactly if the cube of the width does
not fit in a word. -/
theorem run_finalizeChecked_eq_none_iff {statements : List Statement} {settings : LayoutSettings}
    (h : ofStatements statements settings = .ok n) :
    n.finalizeChecked.run = none ↔ ¬ max settings.cliqueSize 2 ^ 3 < wordSize := by
  obtain ⟨hnone, rfl⟩ := fresh_of_ofStatements h
  rw [finalizeChecked, Checked.run_ifFits_eq_none_iff, hnone, Site.fits_iff]
  exact not_congr (or_iff_right nofun)

end Network

/-- With overflow checks, compiling a program panics exactly if its statements have a sum that does
not fit in its word, before an error is found, or else make a network whose rows are too wide. -/
theorem Program.run_compileChecked_eq_none_iff (p : Program) (settings : CompileSettings) :
    (p.compileChecked settings).run = none ↔
      ∃ statements, p.flatten settings.maxDepth = .ok statements ∧
        ((Network.empty settings.layout).Overflows statements ∨
          (∃ n, Network.ofStatements statements settings.layout = .ok n) ∧
            ¬ max settings.layout.cliqueSize 2 ^ 3 < wordSize) := by
  have hbuild := fun statements =>
    Network.performEachChecked_follows (.empty settings.layout) statements
  rw [compileChecked, Checked.run_bind_eq_none_iff]
  -- Flattening has no numbers to overflow, so one of the two steps behind it panics.
  constructor
  · rintro (hflat | ⟨statements, hflat, hrest⟩)
    · cases hflat
    refine ⟨statements, Option.some_inj.mp hflat, ?_⟩
    rcases Checked.run_bind_eq_none_iff.mp hrest with hbuilt | ⟨n, hbuilt, hrest⟩
    · exact .inl (Network.run_performEachChecked_eq_none_iff.mp hbuilt)
    · have hn := (hbuild statements).eq_of_run hbuilt
      rcases Checked.run_bind_eq_none_iff.mp hrest with hlaid | ⟨r, -, hrest⟩
      · exact .inr ⟨⟨n, hn⟩, (Network.run_finalizeChecked_eq_none_iff hn).mp hlaid⟩
      · cases hrest
  · rintro ⟨statements, hflat, hpanics⟩
    refine .inr ⟨statements, congrArg some hflat, Checked.run_bind_eq_none_iff.mpr ?_⟩
    rcases hbuild statements with hbuilt | hbuilt
    · rcases hpanics with hover | ⟨⟨n, hn⟩, hwide⟩
      · exact .inl (Network.run_performEachChecked_eq_none_iff.mpr hover)
      · refine .inr ⟨n, hbuilt.trans (congrArg some hn), Checked.run_bind_eq_none_iff.mpr (.inl ?_)⟩
        exact (Network.run_finalizeChecked_eq_none_iff hn).mpr hwide
    · exact .inl hbuilt

end CombinatorNet
