import ObjectBus.Address
import ObjectBus.Proofs.Forest.Descendants
import ObjectBus.Proofs.Forest.Paths

/-!
# Trees among others

Several parties may work on one bus, each with nodes and interface values of its own. What a party
does can be looked at twice: where it is alone, and where the others work as well. A `Share` says what
becomes of the one in the other: ids are given out in turn, so nodes and values have other ids there,
and some addresses are the party's own.

This module is about the trees. `Forest.Embeds` says that the trees of a forest stand in another one
among others, and is kept by all changes that are made to corresponding nodes; the others stay as they
were. Paths and descendants correspond. The number of links in the whole forest bounds the sweep over
descendants and is greater among others, but a sweep that has steps enough does not change with more
of them (`sweep_of_le`).
-/

set_option autoImplicit false

namespace ObjectBus

/-- **A party's share of a bus**: the ids that its nodes and its interface values have there, and the
addresses that are its own. -/
structure Share where
  nodeId : NodeId → NodeId
  valueId : InterfaceId → InterfaceId
  owns : Address → Prop
  nodeId_injective : Function.Injective nodeId
  valueId_injective : Function.Injective valueId

namespace Share

variable (p : Share)

/-- A node under the ids of the share. -/
def node (x : Node) : Node :=
  { x with
    parent := x.parent.map p.nodeId
    children := x.children.map p.nodeId
    interfaces := Entries.mapValues (fun _ => p.valueId) x.interfaces }

/-- Whose id is none of the share's. -/
def SparesNode (m : NodeId) : Prop := ∀ n, p.nodeId n ≠ m

end Share

namespace Forest

/-! ## Steps enough -/

section Sweep

variable {f : Forest} (hf : f.Layered) {x : NodeId}

include hf

/-- One more step changes nothing, once there are steps enough. -/
theorem sweep_succ (steps : Nat) {seen stack : List NodeId} (h : f.Sweeping x seen stack)
    (hsteps : f.linkCount ≤ steps + seen.length) :
    f.sweep (steps + 1) stack = f.sweep steps stack := by
  induction steps generalizing seen stack with
  | zero =>
      obtain rfl := h.stack_eq_nil (by omega)
      rfl
  | succ steps ih =>
      cases stack with
      | nil => rfl
      | cons n stack =>
          rw [sweep_cons, sweep_cons,
            ih (h.step hf) (by simp only [List.length_cons]; omega)]

/-- **The descendants of a node do not depend on the number of steps.** -/
theorem sweep_of_le (x : NodeId) {steps : Nat} (hsteps : f.linkCount ≤ steps) :
    f.sweep steps (f.childrenOf x).reverse = f.descendants x := by
  rw [descendants_eq]
  induction hsteps with
  | refl => rfl
  | @step steps hsteps ih => rw [sweep_succ hf steps (Sweeping.start hf x) hsteps, ih]

end Sweep

/-! ## The same trees in another forest -/

variable {p : Share} {rest : Forest}

/-- **The trees of `f` stand in `g`** as the share says, and the others are as in `rest`. -/
structure Embeds (p : Share) (rest f g : Forest) : Prop where
  alone : f.WellFormed
  among : g.WellFormed
  nodes : ∀ n, g.get? (p.nodeId n) = (f.get? n).map p.node
  others : ∀ m, p.SparesNode m → g.get? m = rest.get? m

namespace Embeds

variable {f g : Forest} (h : Embeds p rest f g)

include h

theorem namesUp (n : NodeId) : g.namesUp (p.nodeId n) = f.namesUp n := by
  induction n using Nat.strongRecOn with
  | _ n ih =>
      have hget := h.nodes n
      cases hx : f.get? n with
      | none =>
          rw [hx] at hget
          rw [Forest.namesUp, Forest.namesUp, hx, hget]
          rfl
      | some x =>
          rw [hx] at hget
          have hget : g.get? (p.nodeId n) = some (p.node x) := hget
          cases hp : x.parent with
          | none =>
              have hp' : (p.node x).parent = none := by rw [Share.node, hp]; rfl
              rw [namesUp_root hx hp, namesUp_root hget hp']
              rfl
          | some q =>
              have hp' : (p.node x).parent = some (p.nodeId q) := by rw [Share.node, hp]; rfl
              rw [namesUp_child h.alone hx hp, namesUp_child h.among hget hp',
                ih q (h.alone.parent hx hp).1]
              rfl

/-- **Paths correspond.** -/
theorem path (n : NodeId) : g.path (p.nodeId n) = f.path n := by
  rw [Forest.path, Forest.path, h.namesUp]

theorem childrenOf (n : NodeId) :
    g.childrenOf (p.nodeId n) = (f.childrenOf n).map p.nodeId := by
  rw [Forest.childrenOf, Forest.childrenOf, h.nodes]
  cases f.get? n <;> rfl

theorem sweep (steps : Nat) (stack : List NodeId) :
    g.sweep steps (stack.map p.nodeId) = (f.sweep steps stack).map p.nodeId := by
  induction steps generalizing stack with
  | zero => rfl
  | succ steps ih =>
      cases stack with
      | nil => rfl
      | cons n stack =>
          rw [List.map_cons, sweep_cons, sweep_cons, h.childrenOf, ← List.map_reverse,
            ← List.map_append, ih, List.map_cons]

/-- **Descendants correspond**, in order. -/
theorem descendants (n : NodeId) :
    g.descendants (p.nodeId n) = (f.descendants n).map p.nodeId := by
  have hsteps := Nat.le_max_left f.linkCount g.linkCount
  have hsteps' := Nat.le_max_right f.linkCount g.linkCount
  rw [← sweep_of_le h.among.layered _ hsteps', ← sweep_of_le h.alone.layered _ hsteps,
    h.childrenOf, ← List.map_reverse, h.sweep]

theorem isLive (n : NodeId) : g.isLive (p.nodeId n) = f.isLive n := by
  rw [Forest.isLive, Forest.isLive, h.nodes]
  cases f.get? n <;> rfl

/-! ## Changes -/

/-- The same change of corresponding nodes. -/
theorem adjust (n : NodeId) {change change' : Node → Node} (hc : KeepsPlace change)
    (hc' : KeepsPlace change') (hsame : ∀ x, change' (p.node x) = p.node (change x)) :
    Embeds p rest (f.adjust n change) (g.adjust (p.nodeId n) change') where
  alone := h.alone.adjust n hc
  among := h.among.adjust (p.nodeId n) hc'
  nodes m := by
    rw [get?_adjust, get?_adjust, h.nodes]
    by_cases hm : m = n
    · subst hm
      simp only [if_true, Option.map_map, Function.comp_def, hsame]
    · rw [if_neg hm, if_neg fun heq => hm (p.nodeId_injective heq)]
  others m hm := by
    rw [get?_adjust, if_neg (hm n).symm, h.others m hm]

/-- The next node of one tree is the next one of the whole forest. -/
theorem grow (name : String) {parent : Option NodeId}
    (hp : ∀ q, parent = some q → (f.get? q).isSome) (servers : List TransportId)
    (hnext : p.nodeId f.next = g.next) :
    Embeds p rest (f.grow name parent servers).2
      (g.grow name (parent.map p.nodeId) servers).2 := by
  have hp' : ∀ q, parent.map p.nodeId = some q → (g.get? q).isSome := by
    intro q hq
    obtain ⟨r, hr, rfl⟩ := Option.map_eq_some_iff.1 hq
    rw [h.nodes, Option.isSome_map, hp r hr]
  have hparent : ∀ m, parent.map p.nodeId = some (p.nodeId m) ↔ parent = some m := by
    intro m
    rw [← Option.map_some, (Option.map_injective p.nodeId_injective).eq_iff]
  refine ⟨h.alone.grow name hp servers, h.among.grow name hp' servers, fun m => ?_, fun m hm => ?_⟩
  · rw [get?_grow h.alone name hp, get?_grow h.among name hp', h.nodes]
    by_cases hm : m = f.next
    · subst hm
      rw [if_pos rfl, if_pos hnext]
      rfl
    · rw [if_neg hm, if_neg fun heq => hm (p.nodeId_injective (heq.trans hnext.symm)),
        Option.map_map, Option.map_map]
      refine Option.map_congr fun x _ => ?_
      simp only [Function.comp_apply, hparent]
      split
      · simp [Share.node, hnext]
      · rfl
  · have hnew : m ≠ g.next := fun heq => hm f.next (hnext.trans heq.symm)
    have hparent' : parent.map p.nodeId ≠ some m := by
      intro heq
      obtain ⟨q, -, hqm⟩ := Option.map_eq_some_iff.1 heq
      exact hm q hqm
    rw [get?_grow h.among name hp', if_neg hnew, h.others m hm]
    simp [hparent']

omit h in
/-- Moving up corresponds. -/
theorem movedUp_node (n : NodeId) (gone : Node) (m : NodeId) (y : Node) :
    movedUp (p.nodeId n) (p.node gone) (p.nodeId m) (p.node y) = p.node (movedUp n gone m y) := by
  have hparent : (gone.parent.map p.nodeId = some (p.nodeId m)) ↔ gone.parent = some m := by
    rw [← Option.map_some, (Option.map_injective p.nodeId_injective).eq_iff]
  have hchild : p.nodeId m ∈ gone.children.map p.nodeId ↔ m ∈ gone.children :=
    List.mem_map_of_injective p.nodeId_injective
  have hroot : gone.parent.map p.nodeId = none ↔ gone.parent = none := Option.map_eq_none_iff
  have hfilter : (y.children.map p.nodeId).filter (· != p.nodeId n) =
      (y.children.filter (· != n)).map p.nodeId := by
    rw [List.filter_map]
    refine congrArg (List.map p.nodeId) (List.filter_congr fun c _ => ?_)
    exact Bool.eq_iff_iff.2 (by simp [p.nodeId_injective.eq_iff])
  simp only [movedUp, Share.node, hparent, hchild, hroot, hfilter, Node.mk.injEq, true_and]
  refine ⟨?_, ?_⟩
  · split <;> rfl
  · split <;> simp

/-- **Corresponding nodes are uprooted.** -/
theorem uproot {n : NodeId} {gone : Node} (hn : f.get? n = some gone) :
    Embeds p rest (f.uproot n gone.name gone.parent gone.children)
      (g.uproot (p.nodeId n) gone.name (gone.parent.map p.nodeId)
        (gone.children.map p.nodeId)) := by
  have hn' : g.get? (p.nodeId n) = some (p.node gone) := by rw [h.nodes, hn]; rfl
  refine ⟨h.alone.uproot hn, h.among.uproot hn', fun m => ?_, fun m hm => ?_⟩
  · refine (get?_uproot h.among hn' (p.nodeId m)).trans ?_
    rw [get?_uproot h.alone hn, h.nodes]
    by_cases hmn : m = n
    · rw [if_pos hmn, if_pos (congrArg p.nodeId hmn)]
      rfl
    · rw [if_neg hmn, if_neg fun heq => hmn (p.nodeId_injective heq), Option.map_map,
        Option.map_map]
      exact Option.map_congr fun y _ => movedUp_node n gone m y
  · refine (get?_uproot h.among hn' m).trans ?_
    rw [if_neg (hm n).symm, h.others m hm]
    -- a node of others is neither above nor below one of ours
    have hparent : (p.node gone).parent ≠ some m := by
      intro heq
      obtain ⟨q, -, hqm⟩ := Option.map_eq_some_iff.1 heq
      exact hm q hqm
    have hchild : m ∉ (p.node gone).children := by
      intro hmem
      obtain ⟨q, -, hqm⟩ := List.mem_map.1 hmem
      exact hm q hqm
    cases rest.get? m with
    | none => rfl
    | some y => simp [movedUp, hparent, hchild]

end Embeds

end Forest

end ObjectBus
