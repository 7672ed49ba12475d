import CombinatorNet.Proofs.Coloring.Alike
import CombinatorNet.Proofs.Network.Calls

/-!
# The wires of a network

Only appending a combinator changes which wires there are, and it is refused unless the wires of
each side can be told apart.

## Main results

* `Network.wiring_serve` — what requests do to the wiring
* `Network.Reachable.nodup_of_mem_wiring` — a side carries at most two wires, which differ
-/

namespace CombinatorNet

namespace ColorClasses

variable {s : ColorClasses} {sides : List (List String)}

private theorem nodup_of_sideDemands {side : List String} {f : String → Color}
    (hlen : side.length ≤ 2) (h : ∀ c ∈ sideDemands side, c.Holds f) : side.Nodup := by
  match side with
  | [] => exact List.nodup_nil
  | [w] => exact List.nodup_singleton w
  | [a, b] =>
    have hdiffer : f a ≠ f b := h _ (List.mem_singleton.mpr rfl)
    simpa using fun heq : a = b => hdiffer (congrArg f heq)
  | _ :: _ :: _ :: _ => simp at hlen

/-- The wires of a side that is accepted are at most two, and differ. -/
theorem nodup_of_attachAll (h : Valid s) (hok : (s.attachAll sides).1 = .ok ()) :
    ∀ side ∈ sides, side.length ≤ 2 ∧ side.Nodup := by
  have hsettles := settles_attachAll h sides
  obtain ⟨hfits, -, hrespects⟩ := hsettles.accepts hok
  obtain ⟨f, hf⟩ := hsettles.valid.exists_respects
  intro side hside
  refine ⟨hfits side hside, nodup_of_sideDemands (f := f) (hfits side hside) fun c hc => ?_⟩
  exact ((hrespects f).mp hf).2 c (List.mem_flatMap.mpr ⟨side, hside, hc⟩)

end ColorClasses

namespace Network

variable {n : Network}

/-- Only a combinator that is accepted adds to the wiring. -/
theorem wiring_serve (n : Network) (call : NetworkCall) : (n.serve call).2.wiring = n.wiring ∨
    ∃ c inputs outputs span, call = .add c inputs outputs span ∧
      (n.coloring.attachAll [inputs, outputs]).1 = .ok () ∧
      (n.serve call).2.wiring = n.wiring ++ [(inputs, outputs)] := by
  cases call with
  | add c inputs outputs span =>
    rw [serve]
    rcases n.add_cases c inputs outputs span with ⟨_, -, heq⟩ | ⟨hok, heq⟩ <;> rw [heq]
    · exact .inl rfl
    · exact .inr ⟨c, inputs, outputs, span, rfl, hok, List.map_append⟩
  | paint wire color span =>
    rw [serve]
    rcases n.paint_cases wire color span with ⟨_, -, heq⟩ | ⟨-, heq⟩ <;> rw [heq] <;>
      exact .inl rfl
  | _ => exact .inl (sameWires_serve rfl).2

/-- No combinator is ever taken away. -/
theorem wiring_isPrefix_serve (n : Network) (call : NetworkCall) :
    n.wiring <+: (n.serve call).2.wiring := by
  rcases n.wiring_serve call with heq | ⟨_, _, _, _, -, -, heq⟩ <;> rw [heq]
  exact List.prefix_append _ _

/-- In a reachable network, a side of a combinator carries at most two wires, which differ. -/
theorem Reachable.nodup_of_mem_wiring (h : Reachable n) : ∀ sides ∈ n.wiring,
    ∀ side ∈ [sides.1, sides.2], side.length ≤ 2 ∧ side.Nodup := by
  refine h.induction
    (P := fun n => ∀ sides ∈ n.wiring, ∀ side ∈ [sides.1, sides.2], side.length ≤ 2 ∧ side.Nodup)
    (fun _ _ hmem => absurd hmem List.not_mem_nil) fun n call hn ih sides hmem => ?_
  obtain heq | ⟨c, inputs, outputs, span, -, hok, heq⟩ := n.wiring_serve call
  · exact ih sides (heq ▸ hmem)
  · rw [heq] at hmem
    obtain hmem | hmem := List.mem_append.mp hmem
    · exact ih sides hmem
    · obtain ⟨_, hrep⟩ := hn.represents
      rw [List.mem_singleton.mp hmem]
      exact ColorClasses.nodup_of_attachAll hrep.valid hok

theorem Reachable.nodup_outputs (h : Reachable n) {node : Node} (hnode : node ∈ n.nodes) :
    node.outputs.Nodup :=
  (h.nodup_of_mem_wiring _ (List.mem_map_of_mem hnode) node.outputs (by simp)).2

end Network

end CombinatorNet
