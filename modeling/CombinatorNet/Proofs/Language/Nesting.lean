import CombinatorNet.Proofs.Language.Instances
import Mathlib.Tactic.Tauto

/-!
# The nesting of instances

A statement of a body may ask for an instance of a template, and so may the statements of that
template. Whether a program can be flattened is a matter of the chains of instances that come about
in this way: each instance of a chain must be one of a template that is defined and takes its
bindings, and no chain may be longer than the limit. The limit decides nothing else.

## Main definitions

* `Program.Chain` — the chains of instances that a body asks for
* `Template.Accepts`, `Program.Takes` — bindings that a template takes, and instances whose template
  does
* `NotTooDeep` — a result other than the refusal of an instance for its depth

## Main results

* `Program.exists_instantiate_iff` — when an instance can be put in place
* `Program.instantiate_eq_of_notTooDeep` — room for more levels of instances changes nothing else
* `Program.nodup_of_chain` — where the chains are bounded, no template occurs in them twice
* `Program.flatten_ok_iff_chains` — when a program can be flattened, and what the limit has to do
  with it
-/

namespace CombinatorNet

variable {p : Program} {body : List Statement} {enter enter' : Instantiation} {scope : Scope}
  {counts : InstanceCounts} {name : String} {bindings : List Binding} {s : Statement}

/-! ### Chains of instances -/

namespace Program

/-- The statements of a template, none if it is not defined. -/
def bodyOf (p : Program) (name : String) : List Statement := (p.find? name).elim [] Template.body

/-- A chain of instances, each with the name of its template and its bindings: the first is one that
the body asks for, and each other one that the template before it asks for. -/
inductive Chain (p : Program) : List Statement → List (String × List Binding) → Prop
  | nil (body : List Statement) : p.Chain body []
  | cons {body : List Statement} {s : Statement} {name : String} {bindings : List Binding}
      {rest : List (String × List Binding)} (hs : s ∈ body)
      (hr : s.request = .instantiate name bindings) (hrest : p.Chain (p.bodyOf name) rest) :
      p.Chain body ((name, bindings) :: rest)

/-- The chains of a body are the empty one, and those that start with one of its instances. -/
theorem chain_cons_iff {rest : List (String × List Binding)} :
    p.Chain body ((name, bindings) :: rest) ↔
      (∃ s ∈ body, s.request = .instantiate name bindings) ∧ p.Chain (p.bodyOf name) rest := by
  constructor
  · rintro ⟨⟩
    next hs hr hrest => exact ⟨⟨_, hs, hr⟩, hrest⟩
  · rintro ⟨⟨s, hs, hr⟩, hrest⟩
    exact .cons hs hr hrest

/-- A chain may be continued by any chain of the template that it ends with. -/
theorem Chain.append_cons {before after : List (String × List Binding)}
    (h : p.Chain body (before ++ [(name, bindings)])) (hafter : p.Chain (p.bodyOf name) after) :
    p.Chain body (before ++ (name, bindings) :: after) := by
  induction before generalizing body with
  | nil => exact chain_cons_iff.mpr ⟨(chain_cons_iff.mp h).1, hafter⟩
  | cons i before ih =>
    obtain ⟨hi, hrest⟩ := chain_cons_iff.mp h
    exact chain_cons_iff.mpr ⟨hi, ih hrest⟩

theorem Chain.of_append {before after : List (String × List Binding)}
    (h : p.Chain body (before ++ after)) : p.Chain body before := by
  induction before generalizing body with
  | nil => exact .nil body
  | cons i before ih =>
    obtain ⟨hi, hrest⟩ := chain_cons_iff.mp h
    exact chain_cons_iff.mpr ⟨hi, ih hrest⟩

/-- The way from a template back to itself can be gone any number of times. -/
theorem Chain.exists_longer {before : List (String × List Binding)}
    (h : p.Chain (p.bodyOf name) (before ++ [(name, bindings)])) (k : Nat) :
    ∃ chain, p.Chain (p.bodyOf name) chain ∧ k ≤ chain.length := by
  induction k with
  | zero => exact ⟨[], .nil _, Nat.zero_le _⟩
  | succ k ih =>
    obtain ⟨chain, hchain, hk⟩ := ih
    refine ⟨_, h.append_cons hchain, ?_⟩
    rw [List.length_append, List.length_cons]
    omega

/-- Where no chain is longer than a bound, no template occurs twice in one. -/
theorem nodup_of_chain {bound : Nat} (hbound : ∀ chain, p.Chain body chain → chain.length ≤ bound)
    {chain : List (String × List Binding)} (h : p.Chain body chain) :
    (chain.map Prod.fst).Nodup := by
  induction chain generalizing body with
  | nil => exact List.nodup_nil
  | cons i rest ih =>
    obtain ⟨name, bindings⟩ := i
    obtain ⟨hi, hrest⟩ := chain_cons_iff.mp h
    have hinner : ∀ chain, p.Chain (p.bodyOf name) chain → chain.length ≤ bound :=
      fun chain hchain => Nat.le_of_lt (hbound _ (chain_cons_iff.mpr ⟨hi, hchain⟩))
    refine List.nodup_cons.mpr ⟨fun hmem => ?_, ih hinner hrest⟩
    obtain ⟨⟨again, bindings'⟩, hagain, heq⟩ := List.mem_map.mp hmem
    cases heq
    obtain ⟨before, after, rfl⟩ := List.append_of_mem hagain
    have hloop : p.Chain (p.bodyOf name) ((before ++ [(name, bindings')]) ++ after) := by
      simpa using hrest
    obtain ⟨chain, hchain, hlong⟩ := hloop.of_append.exists_longer (bound + 1)
    exact absurd (hinner chain hchain) (by omega)

end Program

/-! ### Bindings -/

/-- The bindings are of parameters of the template, and no two of the same one. -/
structure Template.Accepts (t : Template) (bindings : List Binding) : Prop where
  declared : ∀ b ∈ bindings, b.formal ∈ t.params
  nodup : (bindings.map Binding.formal).Nodup

/-- The template of an instance is defined, and takes the bindings. -/
def Program.Takes (p : Program) (i : String × List Binding) : Prop :=
  ∃ t, p.find? i.1 = some t ∧ t.Accepts i.2

namespace Template

variable {t : Template} {bound : NameMap Bound} {b : Binding} {rest : List Binding}

theorem accepts_cons_iff : t.Accepts (b :: rest) ↔
    b.formal ∈ t.params ∧ b.formal ∉ rest.map Binding.formal ∧ t.Accepts rest := by
  constructor
  · rintro ⟨hdeclared, hnodup⟩
    obtain ⟨hb, hrest⟩ := List.forall_mem_cons.mp hdeclared
    obtain ⟨hnew, hnodup⟩ := List.nodup_cons.mp hnodup
    exact ⟨hb, hnew, hrest, hnodup⟩
  · rintro ⟨hb, hnew, hrest, hnodup⟩
    exact ⟨List.forall_mem_cons.mpr ⟨hb, hrest⟩, List.nodup_cons.mpr ⟨hnew, hnodup⟩⟩

/-- A binding is refused only if its parameter is not declared, or is bound already. -/
theorem bind_cons_ok_iff {result : NameMap Bound} :
    t.bind scope (b :: rest) bound = .ok result ↔
      b.formal ∈ t.params ∧ bound.get? b.formal = none ∧
        t.bind scope rest (bound.insert b.formal ⟨scope.wire b.actual, scope.signal b.actual⟩) =
          .ok result := by
  rw [bind, NameMap.contains]
  by_cases hparam : b.formal ∈ t.params
  · cases bound.get? b.formal <;> simp [hparam]
  · simp [hparam]

/-- The bindings are all accepted exactly if each of them is of a declared parameter, and no two of
them are of the same one. -/
theorem exists_bind_iff : (∃ result, t.bind scope bindings bound = .ok result) ↔
    t.Accepts bindings ∧ ∀ b ∈ bindings, bound.get? b.formal = none := by
  induction bindings generalizing bound with
  | nil =>
    exact ⟨fun _ => ⟨⟨List.forall_mem_nil _, List.nodup_nil⟩, List.forall_mem_nil _⟩,
      fun _ => ⟨bound, rfl⟩⟩
  | cons b rest ih =>
    -- What is still free once the first parameter is bound.
    have hfree : ∀ value, (∀ b' ∈ rest, (bound.insert b.formal value).get? b'.formal = none) ↔
        b.formal ∉ rest.map Binding.formal ∧ ∀ b' ∈ rest, bound.get? b'.formal = none := by
      intro value
      simp only [NameMap.get?_insert, List.mem_map, not_exists, not_and, ← forall₂_and]
      refine forall₂_congr fun b' _ => ?_
      split <;> simp [*]
    simp only [bind_cons_ok_iff, exists_and_left, ih, hfree, accepts_cons_iff,
      List.forall_mem_cons]
    tauto

end Template

/-! ### Success -/

section Success

variable {α β : Type} {x : Except NetworkError α}

/-- A result that is not an error. -/
def Succeeds (x : Except NetworkError α) : Prop := ∃ a, x = .ok a

theorem succeeds_map_iff {f : α → β} : Succeeds (x.map f) ↔ Succeeds x := by
  cases x with
  | error e => exact ⟨nofun, nofun⟩
  | ok a => exact ⟨fun _ => ⟨a, rfl⟩, fun _ => ⟨f a, rfl⟩⟩

/-- Where it does not depend on the result of a step whether the next step succeeds. -/
theorem succeeds_bind_iff {f : α → Except NetworkError β} {P : Prop}
    (h : ∀ a, Succeeds (f a) ↔ P) : Succeeds (x >>= f) ↔ Succeeds x ∧ P := by
  cases x with
  | error e => exact ⟨nofun, fun hx => absurd hx.1 nofun⟩
  | ok a => exact (h a).trans ⟨fun hP => ⟨⟨a, rfl⟩, hP⟩, And.right⟩

end Success

theorem flattenBody_cons_eq_of_stays (hs : s.Stays) (rest : List Statement) :
    flattenBody enter scope (s :: rest) counts = (flattenBody enter scope rest counts).map
      fun r => (⟨scope.request s.request, s.span⟩ :: r.1, r.2) := by
  rw [flattenBody]
  split
  · next hr => exact absurd hr (hs _ _)
  · cases flattenBody enter scope rest counts <;> rfl

theorem flattenBody_cons_eq_of_opens (hs : s.request = .instantiate name bindings)
    (rest : List Statement) :
    flattenBody enter scope (s :: rest) counts = (enter name bindings s.span scope counts >>=
      fun r => (flattenBody enter scope rest r.2).map fun r' => (r.1 ++ r'.1, r'.2)) := by
  simp only [flattenBody, hs]
  refine bind_congr fun r => ?_
  cases flattenBody enter scope rest r.2 <;> rfl

/-- A body can be flattened if its instances can be put in place. -/
theorem succeeds_flattenBody_iff {P : String → List Binding → Prop}
    (h : ∀ name bindings span scope counts,
      Succeeds (enter name bindings span scope counts) ↔ P name bindings) :
    Succeeds (flattenBody enter scope body counts) ↔
      ∀ s ∈ body, ∀ name bindings, s.request = .instantiate name bindings → P name bindings := by
  induction body generalizing counts with
  | nil => exact ⟨fun _ => List.forall_mem_nil _, fun _ => ⟨([], counts), rfl⟩⟩
  | cons s rest ih =>
    rw [List.forall_mem_cons]
    obtain ⟨name, bindings, hs⟩ | hs := s.opens_or_stays
    · rw [flattenBody_cons_eq_of_opens hs, succeeds_bind_iff fun _ => succeeds_map_iff.trans ih, h]
      refine and_congr_left fun _ => ⟨fun hP name' bindings' hs' => ?_, fun hP => hP _ _ hs⟩
      cases hs.symm.trans hs'
      exact hP
    · rw [flattenBody_cons_eq_of_stays hs, succeeds_map_iff, ih]
      exact ⟨fun hrest => ⟨fun name bindings heq => absurd heq (hs name bindings), hrest⟩,
        And.right⟩

namespace Program

variable {limit room : Nat} {span : Span} {t : Template}

/-- The instances of a chain can all be put in place where some levels of instances are allowed. -/
structure Admits (p : Program) (room : Nat) (chain : List (String × List Binding)) : Prop where
  length_le : chain.length ≤ room
  takes : ∀ i ∈ chain, p.Takes i

theorem admits_nil (p : Program) (room : Nat) : p.Admits room [] :=
  ⟨Nat.zero_le room, List.forall_mem_nil _⟩

theorem admits_cons_iff {i : String × List Binding} {rest : List (String × List Binding)} :
    p.Admits (room + 1) (i :: rest) ↔ p.Takes i ∧ p.Admits room rest := by
  constructor
  · rintro ⟨hlength, htakes⟩
    obtain ⟨hi, hrest⟩ := List.forall_mem_cons.mp htakes
    exact ⟨hi, Nat.le_of_succ_le_succ hlength, hrest⟩
  · rintro ⟨hi, hlength, hrest⟩
    exact ⟨Nat.succ_le_succ hlength, List.forall_mem_cons.mpr ⟨hi, hrest⟩⟩

/-- What holds of all chains of a body holds of the empty one and, instance by instance, of those
that start with it. -/
theorem forall_chain_iff {P : List (String × List Binding) → Prop} :
    (∀ chain, p.Chain body chain → P chain) ↔
      P [] ∧ ∀ s ∈ body, ∀ name bindings, s.request = .instantiate name bindings →
        ∀ rest, p.Chain (p.bodyOf name) rest → P ((name, bindings) :: rest) := by
  constructor
  · exact fun h => ⟨h [] (.nil body), fun s hs _ _ hr rest hrest => h _ (.cons hs hr hrest)⟩
  · rintro ⟨hnil, hcons⟩ chain (_ | ⟨hs, hr, hrest⟩)
    · exact hnil
    · exact hcons _ hs _ _ hr _ hrest

theorem instantiate_succ_eq (ht : p.find? name = some t) :
    p.instantiate limit (room + 1) name bindings span scope counts =
      (t.bind scope bindings ∅ >>= fun bound => flattenBody (p.instantiate limit room)
        ⟨some (name ++ "." ++ toString ((counts.get? name).getD 0 + 1)), bound⟩ t.body
        (counts.insert name ((counts.get? name).getD 0 + 1))) := by
  rw [instantiate, ht]

theorem bodyOf_eq (ht : p.find? name = some t) : p.bodyOf name = t.body := by
  rw [bodyOf, ht, Option.elim_some]

/-- A body can be flattened if all chains that start with its instances are admitted. -/
private theorem exists_flattenBody_of_instantiate
    (h : ∀ name bindings span scope counts,
      Succeeds (p.instantiate limit room name bindings span scope counts) ↔
        ∀ rest, p.Chain (p.bodyOf name) rest → p.Admits room ((name, bindings) :: rest)) :
    Succeeds (flattenBody (p.instantiate limit room) scope body counts) ↔
      ∀ chain, p.Chain body chain → p.Admits room chain := by
  rw [succeeds_flattenBody_iff h, forall_chain_iff]
  exact (and_iff_right (p.admits_nil room)).symm

/-- An instance can be put in place exactly if all chains that start with it are admitted. -/
theorem exists_instantiate_iff :
    Succeeds (p.instantiate limit room name bindings span scope counts) ↔
      ∀ rest, p.Chain (p.bodyOf name) rest → p.Admits room ((name, bindings) :: rest) := by
  induction room generalizing name bindings span scope counts with
  | zero =>
    refine ⟨fun h => ?_, fun h => absurd (h [] (.nil _)).length_le (Nat.not_succ_le_zero 0)⟩
    obtain ⟨r, hr⟩ := h
    rw [instantiate] at hr
    split at hr <;> cases hr
  | succ room ih =>
    cases ht : p.find? name with
    | none =>
      refine ⟨fun h => ?_, fun h => ?_⟩
      · obtain ⟨r, hr⟩ := h
        rw [instantiate, ht] at hr
        cases hr
      · obtain ⟨t, ht', -⟩ := (h [] (.nil _)).takes _ List.mem_cons_self
        rw [ht] at ht'
        cases ht'
    | some t =>
      have htakes : p.Takes (name, bindings) ↔ t.Accepts bindings := by
        simp [Takes, ht]
      rw [instantiate_succ_eq ht,
        succeeds_bind_iff fun _ => exists_flattenBody_of_instantiate fun _ _ _ _ _ => ih,
        Succeeds, Template.exists_bind_iff, bodyOf_eq ht]
      simp only [admits_cons_iff, htakes]
      -- The empty chain is there, so the first instance is admitted in any case.
      refine ⟨fun h rest hrest => ⟨h.1.1, h.2 rest hrest⟩, fun h => ⟨⟨(h [] (.nil _)).1, ?_⟩, ?_⟩⟩
      · exact fun _ _ => NameMap.get?_empty _
      · exact fun rest hrest => (h rest hrest).2

/-- A body can be flattened exactly if all its chains are admitted. -/
theorem exists_flattenBody_iff :
    Succeeds (flattenBody (p.instantiate limit room) scope body counts) ↔
      ∀ chain, p.Chain body chain → p.Admits room chain :=
  exists_flattenBody_of_instantiate fun _ _ _ _ _ => exists_instantiate_iff

end Program

/-! ### The limit -/

section Limit

variable {α β : Type} {x x' : Except NetworkError α}

/-- A result that is not the refusal of an instance for its depth. -/
def NotTooDeep (x : Except NetworkError α) : Prop :=
  ∀ name limit span, x ≠ .error (.tooDeep name limit span)

theorem notTooDeep_map_iff {f : α → β} : NotTooDeep (x.map f) ↔ NotTooDeep x := by
  cases x <;> simp [NotTooDeep, Except.map]

/-- Two steps end alike if the first of each does, unless that one is refused for its depth, and the
second of each does, with the same exception. -/
theorem bind_eq_of_notTooDeep {f f' : α → Except NetworkError β} (h : NotTooDeep (x >>= f))
    (hx : NotTooDeep x → x' = x) (hf : ∀ a, NotTooDeep (f a) → f' a = f a) :
    x' >>= f' = x >>= f := by
  cases x with
  | error e =>
    rw [hx fun name limit span heq => h name limit span (by cases heq; rfl)]
    rfl
  | ok a =>
    rw [hx nofun]
    exact hf a h

/-- A body is flattened alike by two ways to put instances in place, if these do the same unless the
first refuses an instance for its depth. -/
theorem flattenBody_eq_of_notTooDeep
    (h : ∀ name bindings span scope counts, NotTooDeep (enter name bindings span scope counts) →
      enter' name bindings span scope counts = enter name bindings span scope counts)
    (hbody : NotTooDeep (flattenBody enter scope body counts)) :
    flattenBody enter' scope body counts = flattenBody enter scope body counts := by
  induction body generalizing counts with
  | nil => rfl
  | cons s rest ih =>
    obtain ⟨name, bindings, hs⟩ | hs := s.opens_or_stays
    · rw [flattenBody_cons_eq_of_opens hs] at hbody ⊢
      rw [flattenBody_cons_eq_of_opens hs]
      exact bind_eq_of_notTooDeep hbody (h _ _ _ _ _)
        fun r hr => by rw [ih (notTooDeep_map_iff.mp hr)]
    · rw [flattenBody_cons_eq_of_stays hs] at hbody ⊢
      rw [flattenBody_cons_eq_of_stays hs, ih (notTooDeep_map_iff.mp hbody)]

end Limit

namespace Program

variable {limit room : Nat} {span : Span}

/-- What becomes of an instance does not depend on how many levels of instances are allowed, unless
it is refused for its depth. -/
theorem instantiate_eq_of_notTooDeep (limit' more : Nat)
    (h : NotTooDeep (p.instantiate limit room name bindings span scope counts)) :
    p.instantiate limit' (room + more) name bindings span scope counts =
      p.instantiate limit room name bindings span scope counts := by
  induction room generalizing name bindings span scope counts with
  | zero =>
    cases ht : p.find? name with
    | none => rw [instantiate, instantiate, ht]
    | some t =>
      rw [instantiate, ht] at h
      exact absurd rfl (h name limit span)
  | succ room ih =>
    cases ht : p.find? name with
    | none => rw [instantiate, instantiate, ht]
    | some t =>
      rw [instantiate_succ_eq ht] at h ⊢
      rw [Nat.succ_add, instantiate_succ_eq ht]
      exact bind_eq_of_notTooDeep h (fun _ => rfl)
        fun bound => flattenBody_eq_of_notTooDeep fun _ _ _ _ _ => ih

/-- A program is flattened alike under any higher limit, unless an instance is refused for its
depth. -/
theorem flatten_eq_of_notTooDeep (h : NotTooDeep (p.flatten limit)) (more : Nat) :
    p.flatten (limit + more) = p.flatten limit := by
  rw [flatten] at h ⊢
  rw [flatten]
  split
  · rfl
  · next entry hentry =>
    rw [hentry] at h
    rw [flattenBody_eq_of_notTooDeep
      (fun _ _ _ _ _ => instantiate_eq_of_notTooDeep (limit + more) more)
      (notTooDeep_map_iff.mp h)]

/-- A program is flattened exactly if, along all chains of instances from its entry, no chain is
longer than the limit, each instance is one of a template that is defined, and binds declared
parameters only and none of them twice. A higher limit yields the same, be it statements or an
error, unless an instance was refused for its depth. What is flattened has no instances left, and
comes from a program in which no template leads back to itself. -/
theorem flatten_ok_iff_chains {entry : Template} (h : p.entryPoint? = some entry) (limit : Nat) :
    ((∃ out, p.flatten limit = .ok out) ↔
      ∀ chain, p.Chain entry.body chain → p.Admits limit chain) ∧
    (NotTooDeep (p.flatten limit) →
      ∀ limit', limit ≤ limit' → p.flatten limit' = p.flatten limit) ∧
    ∀ out, p.flatten limit = .ok out → (∀ s ∈ out, s.Stays) ∧
      ∀ chain, p.Chain entry.body chain → (chain.map Prod.fst).Nodup := by
  have hiff : Succeeds (p.flatten limit) ↔
      ∀ chain, p.Chain entry.body chain → p.Admits limit chain := by
    rw [flatten, h]
    exact succeeds_map_iff.trans exists_flattenBody_iff
  refine ⟨hiff, fun hresult limit' hle => ?_, fun out hout => ⟨stays_of_flatten hout, ?_⟩⟩
  · obtain ⟨more, rfl⟩ := Nat.exists_eq_add_of_le hle
    exact flatten_eq_of_notTooDeep hresult more
  · exact fun chain => nodup_of_chain fun chain hchain =>
      (hiff.mp ⟨out, hout⟩ chain hchain).length_le

/-- A program whose entry leads through two levels of instances, with a template that leads back to
itself and one that nothing defines beside the way. -/
def unusedLoop : Program where
  templates :=
    [⟨"Loop", [], [⟨.instantiate "Loop" [], .nowhere⟩], .nowhere⟩,
      ⟨"Stray", [], [⟨.instantiate "Nothing" [], .nowhere⟩], .nowhere⟩,
      ⟨"Main", [], [⟨.instantiate "Pair" [⟨"w", "A", .nowhere⟩], .nowhere⟩], .nowhere⟩,
      ⟨"Pair", ["w"], [⟨.instantiate "Leaf" [⟨"x", "w", .nowhere⟩], .nowhere⟩,
        ⟨.instantiate "Leaf" [], .nowhere⟩], .nowhere⟩,
      ⟨"Leaf", ["x"], [⟨.display ["x"] "s", .nowhere⟩], .nowhere⟩]

theorem flatten_ok_iff_chains_unusedLoop : ∃ entry, unusedLoop.entryPoint? = some entry ∧
    (∃ out, unusedLoop.flatten 2 = .ok out ∧ out.length = 2) ∧
    (∀ chain, unusedLoop.Chain entry.body chain → unusedLoop.Admits 2 chain) ∧
    (∀ limit, 2 ≤ limit → unusedLoop.flatten limit = unusedLoop.flatten 2) ∧
    ¬ ∀ chain, unusedLoop.Chain entry.body chain → unusedLoop.Admits 1 chain := by
  have hout : ∃ out, unusedLoop.flatten 2 = .ok out ∧ out.length = 2 := ⟨_, rfl, rfl⟩
  have hrefused : ¬ ∃ out, unusedLoop.flatten 1 = .ok out := nofun
  obtain ⟨out, hflat, hlength⟩ := hout
  obtain ⟨hiff, hlimit, -⟩ := flatten_ok_iff_chains (p := unusedLoop) rfl 2
  refine ⟨_, rfl, ⟨out, hflat, hlength⟩, hiff.mp ⟨out, hflat⟩, hlimit ?_,
    mt (flatten_ok_iff_chains rfl 1).1.mpr hrefused⟩
  rw [hflat]
  exact nofun

end Program

end CombinatorNet
