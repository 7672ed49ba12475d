import CombinatorNet.Proofs.Language.Instances
import CombinatorNet.Proofs.Language.Names
import Mathlib.Data.List.Nodup

/-!
# Flattening is hygienic

Two wire names of a flattened program are equal exactly if they stand for the same variable: wires
of different instances get different names, and wires that are bound to one another the same name.
The instances of one template have different numbers, and no name in a parsed program contains a
dot, so the name of an instance and that of a wire can be read off the name of a variable.

## Main definitions

* `wireAt?`, `Program.variableAt?` — the name at an occurrence of a wire, and the variable there
* `Frame.Known` — the callers of an instance are instances of the program too
* `nameIn` — the name of a variable, given the labels of the instances

## Main results

* `Program.spread_visits`, `nodup_labelFrom` — ways and labels tell instances apart
* `qualified_inj` — a qualified name has one template, one number and one wire
* `Program.flatten_eq_nameIn` — the flattened program has one name for each variable
* `Program.wireAt?_eq_iff` — flattening is hygienic
-/

namespace CombinatorNet

variable {visit : Frame → String → List Visit} {frame : Frame} {paths : List (List Nat)}

/-! ### Ways to instances -/

/-- The ways to the instances that some visits open. -/
def pathsOf (visits : List Visit) : List (List Nat) := (openedBy visits).map Prod.fst

/-- Ways that lead through different statements from number `i` on, behind a common part. -/
structure Spread (base : List Nat) (i : Nat) (paths : List (List Nat)) : Prop where
  under : ∀ q ∈ paths, ∃ j rest, i ≤ j ∧ q = base ++ j :: rest
  nodup : paths.Nodup

private theorem pathsOf_cons_of_opens {s : Statement} {name : String} {bindings : List Binding}
    (hs : s.request = .instantiate name bindings) (frame : Frame) (i : Nat) (vs : List Visit) :
    pathsOf (⟨frame, i, s⟩ :: vs) = (frame.path ++ [i]) :: pathsOf vs := by
  rw [pathsOf, openedBy, List.filterMap_cons_some (opens?_of_opens hs frame i)]
  rfl

private theorem pathsOf_cons_of_stays {s : Statement} (hs : s.Stays) (frame : Frame) (i : Nat)
    (vs : List Visit) : pathsOf (⟨frame, i, s⟩ :: vs) = pathsOf vs := by
  rw [pathsOf, openedBy, List.filterMap_cons_none (opens?_of_stays hs frame i)]
  rfl

private theorem pathsOf_append (vs vs' : List Visit) :
    pathsOf (vs ++ vs') = pathsOf vs ++ pathsOf vs' := by
  rw [pathsOf, openedBy, List.filterMap_append, List.map_append]
  rfl

theorem Spread.nil (base : List Nat) (i : Nat) : Spread base i (pathsOf []) :=
  ⟨by simp [pathsOf, openedBy], by simp [pathsOf, openedBy]⟩

theorem Spread.weaken {base : List Nat} {i : Nat} (h : Spread base (i + 1) paths) :
    Spread base i paths := by
  refine ⟨fun q hq => ?_, h.nodup⟩
  obtain ⟨j, rest, hj, heq⟩ := h.under q hq
  exact ⟨j, rest, by omega, heq⟩

/-- The instance at a statement, the instances in it, and those of later statements. -/
theorem Spread.nest {base : List Nat} {i : Nat} {inner later : List (List Nat)}
    (hinner : Spread (base ++ [i]) 0 inner) (hlater : Spread base (i + 1) later) :
    Spread base i ((base ++ [i]) :: (inner ++ later)) := by
  -- Behind the common part, the ways inside go through statement `i` and on, the later ones do not.
  have hinner' : ∀ q ∈ inner, ∃ k rest, q = base ++ i :: k :: rest := fun q hq => by
    obtain ⟨k, rest, -, rfl⟩ := hinner.under q hq
    exact ⟨k, rest, by simp⟩
  have hlater' : ∀ rest, base ++ i :: rest ∉ later := fun rest hmem => by
    obtain ⟨j, rest', hj, heq⟩ := hlater.under _ hmem
    have hij : i = j := (List.cons.inj (List.append_cancel_left heq)).1
    omega
  constructor
  · intro q hq
    obtain rfl | hq := List.mem_cons.mp hq
    · exact ⟨i, [], Nat.le_refl i, rfl⟩
    · obtain hq | hq := List.mem_append.mp hq
      · obtain ⟨k, rest, rfl⟩ := hinner' q hq
        exact ⟨i, k :: rest, Nat.le_refl i, rfl⟩
      · exact hlater.weaken.under q hq
  · refine List.nodup_cons.mpr ⟨fun hmem => ?_, List.nodup_append.mpr ⟨hinner.nodup, hlater.nodup,
      fun q hq q' hq' heq => ?_⟩⟩
    · obtain hmem | hmem := List.mem_append.mp hmem
      · obtain ⟨k, rest, heq⟩ := hinner' _ hmem
        simp at heq
      · exact hlater' [] hmem
    · obtain ⟨k, rest, rfl⟩ := hinner' q hq
      exact hlater' (k :: rest) (heq ▸ hq')

theorem spread_visitBody
    (h : ∀ frame name, Spread frame.path 0 (pathsOf (visit frame name))) (frame : Frame) (i : Nat)
    (body : List Statement) : Spread frame.path i (pathsOf (visitBody visit frame i body)) := by
  -- By induction on the body: an instance has the ways through its statement to itself.
  induction body generalizing i with
  | nil => exact .nil _ _
  | cons s rest ih =>
    obtain ⟨name, bindings, hs⟩ | hs := s.opens_or_stays
    · rw [visitBody_cons_of_opens hs, pathsOf_cons_of_opens hs, pathsOf_append]
      exact (h (.inner frame i bindings) name).nest (ih (i + 1))
    · rw [visitBody_cons_of_stays hs, pathsOf_cons_of_stays hs]
      exact (ih (i + 1)).weaken

theorem Program.spread_visitInstance (p : Program) (room : Nat) (frame : Frame) (name : String) :
    Spread frame.path 0 (pathsOf (p.visitInstance room frame name)) := by
  induction room generalizing frame name with
  | zero => exact .nil _ _
  | succ room ih =>
    rw [visitInstance]
    split
    · exact .nil _ _
    · exact spread_visitBody ih frame 0 _

theorem Program.spread_visits (p : Program) (limit : Nat) :
    Spread [] 0 (pathsOf (p.visits limit)) := by
  rw [visits]
  split
  · exact .nil _ _
  · exact spread_visitBody (p.spread_visitInstance limit) .entry 0 _

/-! ### Labels of instances -/

theorem map_fst_labelFrom (counts : InstanceCounts) (opened : List (List Nat × String)) :
    (labelFrom counts opened).map Prod.fst = opened.map Prod.fst := by
  induction opened generalizing counts with
  | nil => rfl
  | cons o opened ih =>
    rw [labelFrom, List.map_cons, List.map_cons, ih]

theorem mem_of_mem_labelFrom {counts : InstanceCounts} {opened : List (List Nat × String)}
    {l : List Nat × String × Nat} (h : l ∈ labelFrom counts opened) : (l.1, l.2.1) ∈ opened := by
  induction opened generalizing counts with
  | nil => cases h
  | cons o opened ih =>
    rw [labelFrom] at h
    obtain rfl | h := List.mem_cons.mp h
    · exact List.mem_cons_self
    · exact List.mem_cons_of_mem _ (ih h)

/-- Numbers go on from the counts. -/
theorem lt_of_mem_labelFrom {counts : InstanceCounts} {opened : List (List Nat × String)}
    {l : List Nat × String × Nat} (h : l ∈ labelFrom counts opened) :
    (counts.get? l.2.1).getD 0 < l.2.2 := by
  induction opened generalizing counts with
  | nil => cases h
  | cons o opened ih =>
    rw [labelFrom] at h
    obtain rfl | h := List.mem_cons.mp h
    · exact Nat.lt_succ_self _
    · -- Later labels count on from the number just given.
      have hlt := ih h
      rw [NameMap.get?_insert] at hlt
      split at hlt
      · next heq =>
        rw [heq]
        rw [Option.getD_some] at hlt
        omega
      · exact hlt

/-- No two instances have the same template and number. -/
theorem nodup_labelFrom (counts : InstanceCounts) (opened : List (List Nat × String)) :
    ((labelFrom counts opened).map Prod.snd).Nodup := by
  induction opened generalizing counts with
  | nil => exact List.nodup_nil
  | cons o opened ih =>
    rw [labelFrom, List.map_cons]
    refine List.nodup_cons.mpr ⟨fun hmem => ?_, ih _⟩
    -- A later label of the same template has a greater number.
    obtain ⟨l, hl, heq⟩ := List.mem_map.mp hmem
    have hlt := lt_of_mem_labelFrom hl
    rw [heq, NameMap.get?_insert_self, Option.getD_some] at hlt
    exact Nat.lt_irrefl _ hlt

/-! ### Known instances -/

/-- The instance and its callers are among those with the given ways, and pass identifiers. -/
def Frame.Known (paths : List (List Nat)) : Frame → Prop
  | entry => True
  | inner caller index bindings =>
    caller.Known paths ∧ caller.path ++ [index] ∈ paths ∧ ∀ b ∈ bindings, IsIdentifier b.actual

/-- The statement is visited in a known instance, and the names in it are identifiers. -/
structure Visit.Sound (paths : List (List Nat)) (v : Visit) : Prop where
  known : v.frame.Known paths
  names : ∀ n ∈ v.statement.request.names, IsIdentifier n

theorem sound_visitBody
    (h : ∀ frame name, frame.Known paths →
      (∀ q ∈ pathsOf (visit frame name), q ∈ paths) → ∀ v ∈ visit frame name, v.Sound paths)
    {frame : Frame} (hframe : frame.Known paths) {i : Nat} {body : List Statement}
    (hbody : ∀ s ∈ body, ∀ n ∈ s.request.names, IsIdentifier n)
    (hpaths : ∀ q ∈ pathsOf (visitBody visit frame i body), q ∈ paths) :
    ∀ v ∈ visitBody visit frame i body, v.Sound paths := by
  -- By induction on the body; an instance in it is known once its caller is.
  induction body generalizing i with
  | nil => exact fun v hv => by cases hv
  | cons s rest ih =>
    obtain ⟨hnames, hrest⟩ := List.forall_mem_cons.mp hbody
    obtain ⟨name, bindings, hs⟩ | hs := s.opens_or_stays
    · rw [visitBody_cons_of_opens hs, pathsOf_cons_of_opens hs, pathsOf_append,
        List.forall_mem_cons, List.forall_mem_append] at hpaths
      obtain ⟨hself, hinner, hlater⟩ := hpaths
      -- The names that are passed are names in the statement.
      have hbindings : ∀ b ∈ bindings, IsIdentifier b.actual := fun b hb => by
        refine hnames b.actual ?_
        rw [hs, Request.names]
        exact List.mem_cons_of_mem _ (List.mem_flatMap.mpr ⟨b, hb, by simp [Binding.names]⟩)
      rw [visitBody_cons_of_opens hs, List.forall_mem_cons, List.forall_mem_append]
      exact ⟨⟨hframe, hnames⟩, h _ name ⟨hframe, hself, hbindings⟩ hinner, ih hrest hlater⟩
    · rw [visitBody_cons_of_stays hs, pathsOf_cons_of_stays hs] at hpaths
      rw [visitBody_cons_of_stays hs, List.forall_mem_cons]
      exact ⟨⟨hframe, hnames⟩, ih hrest hpaths⟩

private theorem isIdentifier_of_mem_body {p : Program} (hp : ∀ n ∈ p.names, IsIdentifier n)
    {t : Template} (ht : t ∈ p.templates) :
    ∀ s ∈ t.body, ∀ n ∈ s.request.names, IsIdentifier n := fun s hs n hn => by
  refine hp n (List.mem_flatMap.mpr ⟨t, ht, ?_⟩)
  rw [Template.names]
  exact List.mem_append_right _ (List.mem_flatMap.mpr ⟨s, hs, hn⟩)

theorem Program.sound_visitInstance {p : Program} (hp : ∀ n ∈ p.names, IsIdentifier n)
    (room : Nat) (frame : Frame) (name : String) (hframe : frame.Known paths)
    (hpaths : ∀ q ∈ pathsOf (p.visitInstance room frame name), q ∈ paths) :
    ∀ v ∈ p.visitInstance room frame name, v.Sound paths := by
  induction room generalizing frame name with
  | zero => exact fun v hv => by cases hv
  | succ room ih =>
    rw [visitInstance] at hpaths ⊢
    split
    · exact fun v hv => by cases hv
    · next t ht =>
      simp only [ht] at hpaths
      exact sound_visitBody ih hframe (isIdentifier_of_mem_body hp (List.mem_of_find?_eq_some ht))
        hpaths

/-- Every statement is visited in a known instance. -/
theorem Program.sound_visits {p : Program} (hp : ∀ n ∈ p.names, IsIdentifier n) (limit : Nat) :
    ∀ v ∈ p.visits limit, v.Sound (pathsOf (p.visits limit)) := by
  rw [visits]
  split
  · exact fun v hv => by cases hv
  · next t ht =>
    have hentry : ∀ paths, Frame.entry.Known paths := fun _ => trivial
    exact sound_visitBody (p.sound_visitInstance hp limit) (hentry _)
      (isIdentifier_of_mem_body hp (mem_of_entryPoint? ht)) fun q hq => hq

/-- The variable of a name is one of the entry or of a known instance. -/
theorem Frame.Known.resolve (h : frame.Known paths) {name : String} (hname : IsIdentifier name) :
    ((frame.resolve name).path = [] ∨ (frame.resolve name).path ∈ paths) ∧
      IsIdentifier (frame.resolve name).name := by
  -- By induction on the callers, along which the name is passed.
  induction frame generalizing name with
  | entry => exact ⟨.inl rfl, hname⟩
  | inner caller index bindings ih =>
    obtain ⟨hcaller, hself, hbindings⟩ := h
    rw [Frame.resolve]
    split
    · next b hb => exact ih hcaller (hbindings b (List.mem_of_find?_eq_some hb))
    · exact ⟨.inr hself, hname⟩

/-- The template of an instance has an identifier for a name. -/
private theorem isIdentifier_of_mem_openedBy {visits : List Visit}
    (h : ∀ v ∈ visits, v.Sound paths) {o : List Nat × String} (ho : o ∈ openedBy visits) :
    IsIdentifier o.2 := by
  obtain ⟨v, hv, hopens⟩ := List.mem_filterMap.mp ho
  rw [Visit.opens?] at hopens
  split at hopens
  · next name bindings hr =>
    cases hopens
    refine (h v hv).names name ?_
    rw [hr, Request.names]
    exact List.mem_cons_self
  · cases hopens

/-! ### Qualified names -/

private theorem append_cons_inj {xs ys xs' ys' : List Char} {c : Char} (h : c ∉ xs) (h' : c ∉ xs')
    (heq : xs ++ c :: ys = xs' ++ c :: ys') : xs = xs' ∧ ys = ys' := by
  induction xs generalizing xs' with
  | nil =>
    cases xs' with
    | nil => exact ⟨rfl, (List.cons.inj heq).2⟩
    | cons d xs' => exact absurd ((List.cons.inj heq).1 ▸ List.mem_cons_self) h'
  | cons d xs ih =>
    cases xs' with
    | nil => exact absurd ((List.cons.inj heq).1 ▸ List.mem_cons_self) h
    | cons d' xs' =>
      obtain ⟨rfl, hrest⟩ := List.cons.inj heq
      obtain ⟨rfl, hys⟩ :=
        ih (List.not_mem_of_not_mem_cons h) (List.not_mem_of_not_mem_cons h') hrest
      exact ⟨rfl, hys⟩

private theorem toList_qualified (template : String) (n : Nat) (name : String) :
    (qualified template n name).toList =
      template.toList ++ '.' :: (Nat.toDigits 10 n ++ '.' :: name.toList) := by
  simp [qualified]

private theorem dot_not_mem_toDigits (n : Nat) : '.' ∉ Nat.toDigits 10 n := fun h =>
  absurd (Nat.isDigit_of_mem_toDigits (by decide) (by decide) h) (by decide)

/-- A qualified name has one template, one number and one wire. -/
theorem qualified_inj {t t' : String} {n n' : Nat} {w w' : String} (ht : IsIdentifier t)
    (ht' : IsIdentifier t') (h : qualified t n w = qualified t' n' w') :
    (t, n) = (t', n') ∧ w = w' := by
  -- Neither the template nor the digits of the number contain a dot, so each ends at the first one.
  have hlist := congrArg String.toList h
  rw [toList_qualified, toList_qualified] at hlist
  obtain ⟨htemplate, hrest⟩ := append_cons_inj ht.not_mem_dot ht'.not_mem_dot hlist
  obtain ⟨hdigits, hname⟩ :=
    append_cons_inj (dot_not_mem_toDigits n) (dot_not_mem_toDigits n') hrest
  have hnumber : n = n' := by
    rw [← Nat.ofDigitChars_toDigits (by decide : 1 < 10) (by decide : 10 ≤ 10) (n := n), hdigits,
      Nat.ofDigitChars_toDigits (by decide) (by decide)]
  exact ⟨Prod.ext (String.toList_inj.mp htemplate) hnumber, String.toList_inj.mp hname⟩

/-- A qualified name is no identifier. -/
theorem not_isIdentifier_qualified (t : String) (n : Nat) (w : String) :
    ¬ IsIdentifier (qualified t n w) := fun h => h.not_mem_dot (by simp [toList_qualified])

/-! ### Names of variables -/

/-- The name of a variable, given the labels of the instances. -/
def nameIn (labels : List (List Nat × String × Nat)) (x : Variable) : String :=
  match labels.lookup x.path with
  | some (template, n) => qualified template n x.name
  | none => x.name

/-- Labels that tell instances apart, and none of which is for the entry. -/
structure Distinct (labels : List (List Nat × String × Nat)) : Prop where
  nodup_paths : (labels.map Prod.fst).Nodup
  nodup_labels : (labels.map Prod.snd).Nodup
  nil_notMem : [] ∉ labels.map Prod.fst
  template : ∀ l ∈ labels, IsIdentifier l.2.1

namespace Distinct

variable {labels : List (List Nat × String × Nat)} {x y : Variable}

theorem nameIn_entry (h : Distinct labels) (hx : x.path = []) : nameIn labels x = x.name := by
  have hnone : labels.lookup [] = none := by
    refine List.lookup_eq_none_iff.mpr fun l hl => ?_
    have hne : l.1 ≠ [] := fun heq => h.nil_notMem (heq ▸ List.mem_map_of_mem hl)
    simpa using hne.symm
  rw [nameIn, hx, hnone]

theorem nameIn_of_mem (h : Distinct labels) {l : List Nat × String × Nat} (hl : l ∈ labels)
    (hx : l.1 = x.path) : nameIn labels x = qualified l.2.1 l.2.2 x.name := by
  have hlookup : labels.lookup l.1 = some l.2 := by
    -- Ways are distinct, so no label before this one is for the same way.
    obtain ⟨before, after, rfl⟩ := List.append_of_mem hl
    refine List.lookup_eq_some_iff.mpr ⟨before, after, rfl, fun l' hl' => ?_⟩
    have hnodup := h.nodup_paths
    rw [List.map_append, List.map_cons, List.nodup_append] at hnodup
    have hne := hnodup.2.2 l'.1 (List.mem_map_of_mem hl') l.1 List.mem_cons_self
    simpa using hne.symm
  rw [nameIn, ← hx, hlookup]

/-- Variables of different instances, and different variables of one, have different names. -/
theorem nameIn_inj (h : Distinct labels)
    (hx : (x.path = [] ∨ x.path ∈ labels.map Prod.fst) ∧ IsIdentifier x.name)
    (hy : (y.path = [] ∨ y.path ∈ labels.map Prod.fst) ∧ IsIdentifier y.name)
    (heq : nameIn labels x = nameIn labels y) : x = y := by
  obtain ⟨hx, hxname⟩ := hx
  obtain ⟨hy, hyname⟩ := hy
  obtain hx | hx := hx <;> obtain hy | hy := hy
  · rw [h.nameIn_entry hx, h.nameIn_entry hy] at heq
    exact Variable.ext (hx.trans hy.symm) heq
  · -- A name of the entry has no dot.
    obtain ⟨l, hl, hpath⟩ := List.mem_map.mp hy
    rw [h.nameIn_entry hx, h.nameIn_of_mem hl hpath] at heq
    exact absurd (heq ▸ hxname) (not_isIdentifier_qualified _ _ _)
  · obtain ⟨l, hl, hpath⟩ := List.mem_map.mp hx
    rw [h.nameIn_entry hy, h.nameIn_of_mem hl hpath] at heq
    exact absurd (heq ▸ hyname) (not_isIdentifier_qualified _ _ _)
  · -- The label can be read off the name, and only one instance has it.
    obtain ⟨l, hl, hpath⟩ := List.mem_map.mp hx
    obtain ⟨l', hl', hpath'⟩ := List.mem_map.mp hy
    rw [h.nameIn_of_mem hl hpath, h.nameIn_of_mem hl' hpath'] at heq
    obtain ⟨hlabel, hname⟩ := qualified_inj (h.template l hl) (h.template l' hl') heq
    have hsame : l = l' := List.inj_on_of_nodup_map h.nodup_labels hl hl' hlabel
    exact Variable.ext (by rw [← hpath, ← hpath', hsame]) hname

end Distinct

/-- The instances of a program with their templates and numbers. -/
def Program.labels (p : Program) (limit : Nat) : List (List Nat × String × Nat) :=
  labelFrom ∅ (openedBy (p.visits limit))

theorem Program.map_fst_labels (p : Program) (limit : Nat) :
    (p.labels limit).map Prod.fst = pathsOf (p.visits limit) := map_fst_labelFrom _ _

theorem Program.distinct_labels {p : Program} (hp : ∀ n ∈ p.names, IsIdentifier n) (limit : Nat) :
    Distinct (p.labels limit) where
  nodup_paths := p.map_fst_labels limit ▸ (p.spread_visits limit).nodup
  nodup_labels := nodup_labelFrom _ _
  nil_notMem hmem := by
    rw [map_fst_labels] at hmem
    obtain ⟨j, rest, -, heq⟩ := (p.spread_visits limit).under _ hmem
    cases heq
  template l hl :=
    isIdentifier_of_mem_openedBy (sound_visits hp limit) (mem_of_mem_labelFrom hl)

/-! ### Occurrences of wires -/

/-- The wires that a request names, in order. An instance has its wires in its statements. -/
def Request.wires : Request → List String
  | constant _ _ outputs => outputs
  | binary inputs _ outputs => inputs ++ outputs
  | display inputs _ => inputs
  | instantiate _ _ => []
  | paint _ wires => wires
  | label _ _ => []

@[simp] theorem Request.wires_rename (wire signal : String → String) (r : Request) :
    (r.rename wire signal).wires = r.wires.map wire := by
  cases r <;> simp [rename, wires]

theorem Request.mem_names_of_mem_wires {r : Request} {w : String} (h : w ∈ r.wires) :
    w ∈ r.names := by
  cases r <;> simp_all [wires, names]
  tauto

/-- The name at occurrence number `i` of a wire in statement number `k`. -/
def wireAt? (statements : List Statement) (k i : Nat) : Option String :=
  statements[k]?.bind fun s => s.request.wires[i]?

/-- The variable at occurrence number `i` of a wire in origin number `k`. -/
def Program.variableAt? (p : Program) (limit k i : Nat) : Option Variable :=
  (p.origins limit)[k]?.bind fun v => v.statement.request.wires[i]?.map v.frame.resolve

/-- A variable that occurs is one of the entry or of an instance that is visited. -/
theorem Program.known_of_variableAt? {p : Program} (hp : ∀ n ∈ p.names, IsIdentifier n)
    {limit k i : Nat} {x : Variable} (hx : p.variableAt? limit k i = some x) :
    (x.path = [] ∨ x.path ∈ (p.labels limit).map Prod.fst) ∧ IsIdentifier x.name := by
  obtain ⟨v, hv, hx⟩ := Option.bind_eq_some_iff.mp hx
  obtain ⟨w, hw, rfl⟩ := Option.map_eq_some_iff.mp hx
  have hsound := sound_visits hp limit v (List.mem_filter.mp (List.mem_of_getElem? hv)).1
  rw [map_fst_labels]
  exact hsound.known.resolve
    (hsound.names w (Request.mem_names_of_mem_wires (List.mem_of_getElem? hw)))

/-- The flattened program has one name for each variable. -/
theorem Program.flatten_eq_nameIn {p : Program} (hp : ∀ n ∈ p.names, IsIdentifier n) {limit : Nat}
    {out : List Statement} (hflatten : p.flatten limit = .ok out) :
    out = (p.origins limit).map (Visit.named (nameIn (p.labels limit))) :=
  flatten_eq_origins hflatten (fun _ => (distinct_labels hp limit).nameIn_entry rfl)
    fun _ hl _ => (distinct_labels hp limit).nameIn_of_mem hl rfl

/-- A wire of the flattened program has the name of the variable that occurs there. -/
theorem Program.wireAt?_flatten {p : Program} (hp : ∀ n ∈ p.names, IsIdentifier n) {limit : Nat}
    {out : List Statement} (hflatten : p.flatten limit = .ok out) (k i : Nat) :
    wireAt? out k i = (p.variableAt? limit k i).map (nameIn (p.labels limit)) := by
  rw [flatten_eq_nameIn hp hflatten, wireAt?, variableAt?, List.getElem?_map]
  cases (p.origins limit)[k]? with
  | none => rfl
  | some v => simp [Visit.named, Function.comp_def]

/-- The statements of a flattened program come from the origins, one from each, and have a wire
where these have a variable; and two wires have the same name exactly if they are the same
variable. -/
theorem Program.wireAt?_eq_iff {source : String} {p : Program} {limit : Nat}
    {out : List Statement} (hparse : Program.parse source = .ok p)
    (hflatten : p.flatten limit = .ok out) :
    out.map Statement.span = (p.origins limit).map (fun v => v.statement.span) ∧
    (∀ k i, (wireAt? out k i).isSome = (p.variableAt? limit k i).isSome) ∧
    ∀ k i k' i', wireAt? out k i = wireAt? out k' i' ↔
      p.variableAt? limit k i = p.variableAt? limit k' i' := by
  have hp := isIdentifier_of_parse hparse
  have hwire := wireAt?_flatten hp hflatten
  refine ⟨?_, fun k i => ?_, fun k i k' i' => ?_⟩
  · rw [flatten_eq_nameIn hp hflatten, List.map_map]
    rfl
  · rw [hwire, Option.isSome_map]
  · rw [hwire, hwire]
    constructor
    · intro h
      cases hx : p.variableAt? limit k i with
      | none =>
        rw [hx, Option.map_none] at h
        exact (Option.map_eq_none_iff.mp h.symm).symm
      | some x =>
        -- Both variables are known, so they can be read off their names.
        rw [hx, Option.map_some] at h
        obtain ⟨y, hy, heq⟩ := Option.map_eq_some_iff.mp h.symm
        rw [hy, (distinct_labels hp limit).nameIn_inj (known_of_variableAt? hp hx)
          (known_of_variableAt? hp hy) heq.symm]
    · exact congrArg _

/-- Two instances share the wire that is passed to both, and each has a wire of its own. -/
theorem Program.wireAt?_eq_iff_twoInstances :
    ∃ p out, Program.parse "Main() \x7b A(P=X) A(P=X) \x7d A(P) \x7b red (P, W) \x7d" = .ok p ∧
      p.flatten 1 = .ok out ∧
      wireAt? out 0 0 = wireAt? out 1 0 ∧ wireAt? out 0 1 ≠ wireAt? out 1 1 := by
  let p := (Program.parse
    "Main() \x7b A(P=X) A(P=X) \x7d A(P) \x7b red (P, W) \x7d").toOption.getD default
  let out := (p.flatten 1).toOption.getD []
  have hparse :
      Program.parse "Main() \x7b A(P=X) A(P=X) \x7d A(P) \x7b red (P, W) \x7d" = .ok p := by
    decide +kernel
  have hflatten : p.flatten 1 = .ok out := by decide +kernel
  obtain ⟨-, -, hiff⟩ := wireAt?_eq_iff hparse hflatten
  exact ⟨p, out, hparse, hflatten, (hiff 0 0 1 0).mpr (by decide +kernel),
    fun heq => absurd ((hiff 0 1 1 1).mp heq) (by decide +kernel)⟩

end CombinatorNet
