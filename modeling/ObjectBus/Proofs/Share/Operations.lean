import ObjectBus.Proofs.Effect.Trees
import ObjectBus.Proofs.Share.Nodes

/-!
# Operations among others

An operation of a party is about its own nodes and values and about the one transport in use. Among
others it is the same operation under the ids of the share (`Operation.under`). **Nothing tells the two
apart**: the answer is the same, and what the party has stands in the bus afterwards as it does alone
(`Bus.Embeds.apply`), provided that its nodes stand at addresses of the share, before and after.
-/

set_option autoImplicit false

namespace ObjectBus

/-- **The answer to an operation**, where one is given: whether something was there to be done, or what
went wrong. -/
def Operation.answer (levels : Nat) : Operation → Bus → Except (Failure BusError) Bool
  | makeChild parent _, b => .ok (b.node? parent).isSome
  | holdNode n, b => .ok (b.node? n).isSome
  | dropNode n, b => .ok (b.isLiveNode n)
  | makeInterface i n, b =>
      if b.isLooseInterface i && b.isLiveNode n then
        (b.makeInterface (.ofLevels (levels + 1)) i n).1.map fun _ => true
      else .ok false
  | takeOut i, b => .ok ((b.interface? i).any fun x => !(x.isLoose || x.handles != 1))
  | holdInterface i, b => .ok ((b.interface? i).any fun x => !x.isLoose)
  | dropInterface i, b => .ok (b.isLiveInterface i)
  | detach n name, b => .ok (b.detach (.ofLevels (levels + 1)) n name).1
  | bind n t, b =>
      if b.isLiveServer t then
        ((b.bind (.ofLevels (levels + 1)) n t).1.mapError .error).map fun _ => true
      else .ok false
  | unbind n t, b =>
      if b.isLiveServer t then .ok (b.unbind (.ofLevels (levels + 1)) n t).1 else .ok false
  | manage n _, b => .ok (b.node? n).isSome
  | _, _ => .ok true

/-- An operation under the ids of a share. -/
@[simp]
def Operation.under (p : Share) : Operation → Operation
  | makeChild parent name => makeChild (p.nodeId parent) name
  | holdNode n => holdNode (p.nodeId n)
  | dropNode n => dropNode (p.nodeId n)
  | makeInterface i n => makeInterface (p.valueId i) (p.nodeId n)
  | takeOut i => takeOut (p.valueId i)
  | holdInterface i => holdInterface (p.valueId i)
  | dropInterface i => dropInterface (p.valueId i)
  | detach n name => detach (p.nodeId n) name
  | bind n t => bind (p.nodeId n) t
  | unbind n t => unbind (p.nodeId n) t
  | manage n object => manage (p.nodeId n) object
  | op => op

/-- An operation that leaves all transports but `t` alone, and the handles of `t`. -/
def Operation.IsAbout (t : TransportId) : Operation → Prop
  | bind _ u => u = t
  | unbind _ u => u = t
  | openLoopback _ => False
  | openRecorder _ _ => False
  | holdTransport _ => False
  | dropTransport _ => False
  | _ => True

/-- **An operation does the same alone and among others**: it has the same answer, and what the party
has stands there afterwards as it does alone. -/
structure Bus.ActsAlike (p : Share) (t : TransportId) (rest : Bus) (levels : Nat) (op : Operation)
    (c b : Bus) : Prop where
  answer : (op.under p).answer levels b = op.answer levels c
  embeds : Bus.Embeds p t rest (op.apply levels c) ((op.under p).apply levels b)

namespace Bus.Embeds

variable {p : Share} {t : TransportId} {rest c b : Bus} (E : Embeds p t rest c b)

include E

theorem isLooseInterface (i : InterfaceId) :
    b.isLooseInterface (p.valueId i) = c.isLooseInterface i := by
  cases hi : c.interface? i with
  | none => simp only [Bus.isLooseInterface, hi, E.interface?_none hi]
  | some y =>
      simp only [Bus.isLooseInterface, hi, E.interface?_some hi]
      rfl

theorem isSome_node? (n : NodeId) : (b.node? (p.nodeId n)).isSome = (c.node? n).isSome := by
  rw [E.node?, Option.isSome_map]

/-- A test that does not look at the owner has the same outcome. -/
theorem any_interface? (i : InterfaceId) {test : Instance → Bool}
    (h : ∀ y, test (p.value y) = test y) :
    (b.interface? (p.valueId i)).any test = (c.interface? i).any test := by
  rw [E.values]
  cases c.interface? i with
  | none => rfl
  | some y => exact h y

/-- An operation makes as many nodes among others as it makes alone. -/
theorem nodesMade (op : Operation) : (op.under p).nodesMade b = op.nodesMade c := by
  cases op with
  | makeChild parent name =>
      simp only [Operation.under, Operation.nodesMade, E.isSome_node?]
  | _ => rfl

theorem othersMade (op : Operation) : (op.under p).othersMade b = op.othersMade c := by
  cases op with
  | takeOut i =>
      simp only [Operation.under, Operation.othersMade]
      rw [E.any_interface? i fun _ => rfl]
  | _ => rfl

/-- **A value is moved out of its handle.** -/
theorem movedOut (i : InterfaceId) (y : Instance) (hnext : p.valueId c.next = b.next) :
    Embeds p t rest (c.movedOut i y) (b.movedOut (p.valueId i) (p.value y)) :=
  (E.forget i).newInstance { y with isLoose := true } hnext

/-! ## One operation -/

theorem actsAlike_makeChild (levels : Nat) (parent : NodeId) (name : String)
    (hnode : c.forest.next < ((Operation.makeChild parent name).apply levels c).forest.next →
      p.nodeId c.forest.next = b.forest.next) :
    ActsAlike p t rest levels (.makeChild parent name) c b := by
  cases hn : c.node? parent with
  | none =>
      constructor
      · simp only [Operation.under, Operation.answer, hn, E.node?_none hn]
      · simp only [Operation.under, Operation.apply, hn, E.node?_none hn]
        exact E
  | some x =>
      have hparent : ∀ q, some parent = some q → (c.node? q).isSome = true := by
        rintro q ⟨⟩
        rw [hn]
        rfl
      simp only [Operation.apply, hn, withForest, Forest.next_grow] at hnode
      have hgrown := E.grow name hparent (fun u hu => E.eq_of_mem_transportsOf hn hu)
        (hnode (Nat.lt_succ_self _))
      constructor
      · simp only [Operation.under, Operation.answer, hn, E.node?_some hn]
        rfl
      · simp only [Operation.under, Operation.apply, hn, E.node?_some hn, E.transportsOf hn]
        exact hgrown

theorem actsAlike_dropNode (hc : c.Sound) (hb : b.Sound) (hheld : c.Held) (hheld' : b.Held)
    (levels : Nat) (n : NodeId) (hown : p.Houses c t)
    (hafter : p.Houses ((Operation.dropNode n).apply levels c) t) :
    ActsAlike p t rest levels (.dropNode n) c b := by
  refine ⟨congrArg Except.ok (E.isLiveNode n), ?_⟩
  simp only [Operation.under, Operation.apply, E.isLiveNode] at hafter ⊢
  cases hlive : c.isLiveNode n with
  | false => exact E
  | true =>
      obtain ⟨x, hn, -⟩ := exists_of_isLiveNode hlive
      rw [hlive] at hafter
      exact E.releaseNode hown hc hb hheld hheld' levels hn hafter

theorem actsAlike_makeInterface (levels : Nat) (i : InterfaceId) (n : NodeId)
    (hown : p.Houses c t) : ActsAlike p t rest levels (.makeInterface i n) c b := by
  obtain ⟨hanswer, E'⟩ := E.makeInterface hown levels i n
  constructor
  · simp only [Operation.under, Operation.answer, E.isLooseInterface, E.isLiveNode, hanswer]
  · simp only [Operation.under, Operation.apply, E.isLooseInterface, E.isLiveNode]
    split
    · exact E'
    · exact E

theorem actsAlike_takeOut (levels : Nat) (i : InterfaceId)
    (hvalue : c.next < ((Operation.takeOut i).apply levels c).next →
      p.valueId c.next = b.next) :
    ActsAlike p t rest levels (.takeOut i) c b := by
  refine ⟨congrArg Except.ok (E.any_interface? i fun _ => rfl), ?_⟩
  cases hi : c.interface? i with
  | none =>
      simp only [Operation.under, Operation.apply, hi, E.interface?_none hi]
      exact E
  | some y =>
      simp only [Operation.under, Operation.apply, hi, E.interface?_some hi] at hvalue ⊢
      have hsame : ((p.value y).isLoose || (p.value y).handles != 1) =
        (y.isLoose || y.handles != 1) := rfl
      rw [hsame]
      split
      · exact E
      · next hout =>
          rw [if_neg hout] at hvalue
          exact E.movedOut i y (hvalue (Nat.lt_succ_self _))

theorem actsAlike_holdInterface (levels : Nat) (i : InterfaceId) :
    ActsAlike p t rest levels (.holdInterface i) c b := by
  refine ⟨congrArg Except.ok (E.any_interface? i fun _ => rfl), ?_⟩
  simp only [Operation.under, Operation.apply, E.isLooseInterface]
  split
  · exact E
  · exact E.adjustInterface i fun _ => rfl

theorem actsAlike_dropInterface (levels : Nat) (i : InterfaceId) (hown : p.Houses c t) :
    ActsAlike p t rest levels (.dropInterface i) c b := by
  refine ⟨congrArg Except.ok (E.isLiveInterface i), ?_⟩
  simp only [Operation.under, Operation.apply, E.isLiveInterface]
  split
  · exact E.releaseInterface hown levels i
  · exact E

theorem actsAlike_bind (hc : c.Sound) (hb : b.Sound) (levels : Nat) (n : NodeId)
    (hafter : p.Houses ((Operation.bind n t).apply levels c) t) :
    ActsAlike p t rest levels (.bind n t) c b := by
  simp only [Operation.apply, E.live, if_true] at hafter
  obtain ⟨hanswer, E'⟩ := E.bind (.ofLevels (levels + 1)) hc hb n hafter
  constructor
  · simp only [Operation.under, Operation.answer, E.live, E.live_among, if_true, hanswer]
  · simp only [Operation.under, Operation.apply, E.live, E.live_among, if_true]
    exact E'

theorem actsAlike_unbind (levels : Nat) (n : NodeId) (hown : p.Houses c t) :
    ActsAlike p t rest levels (.unbind n t) c b := by
  obtain ⟨hanswer, E'⟩ := E.unbind hown (.ofLevels (levels + 1)) n
  constructor
  · simp only [Operation.under, Operation.answer, E.live, E.live_among, if_true, hanswer]
  · simp only [Operation.under, Operation.apply, E.live, E.live_among, if_true]
    exact E'

/-- **An operation of a party among others.** The next ids are the share's if the operation makes
something. -/
theorem apply (hc : c.Sound) (hb : b.Sound) (hheld : c.Held) (hheld' : b.Held) (levels : Nat)
    {op : Operation} (hop : op.IsAbout t) (hown : p.Houses c t)
    (hafter : p.Houses (op.apply levels c) t)
    (hnode : c.forest.next < (op.apply levels c).forest.next →
      p.nodeId c.forest.next = b.forest.next)
    (hvalue : c.next < (op.apply levels c).next → p.valueId c.next = b.next) :
    ActsAlike p t rest levels op c b := by
  cases op with
  | makeRoot name =>
      have hparent : ∀ q, none = some q → (c.node? q).isSome = true := fun _ hq => nomatch hq
      have hservers : ∀ u ∈ ([] : List TransportId), u = t := fun _ hu => nomatch hu
      exact ⟨rfl, E.grow name hparent hservers (hnode (Nat.lt_succ_self _))⟩
  | makeChild parent name => exact E.actsAlike_makeChild levels parent name hnode
  | holdNode n => exact ⟨congrArg Except.ok (E.isSome_node? n), E.adjustHandles n fun k => k + 1⟩
  | dropNode n => exact E.actsAlike_dropNode hc hb hheld hheld' levels n hown hafter
  | build interface =>
      exact ⟨rfl, E.newInstance { interface } (hvalue (Nat.lt_succ_self _))⟩
  | makeInterface i n => exact E.actsAlike_makeInterface levels i n hown
  | takeOut i => exact E.actsAlike_takeOut levels i hvalue
  | holdInterface i => exact E.actsAlike_holdInterface levels i
  | dropInterface i => exact E.actsAlike_dropInterface levels i hown
  | detach n name =>
      obtain ⟨hanswer, E'⟩ := E.detach hown (.ofLevels (levels + 1)) n name
      exact ⟨congrArg Except.ok hanswer, E'⟩
  | bind n u =>
      obtain rfl : u = t := hop
      exact E.actsAlike_bind hc hb levels n hafter
  | unbind n u =>
      obtain rfl : u = t := hop
      exact E.actsAlike_unbind levels n hown
  | manage n object =>
      exact ⟨congrArg Except.ok (E.isSome_node? n), E.manage hown (.ofLevels (levels + 1)) n object⟩
  | openLoopback | openRecorder | holdTransport | dropTransport => exact hop.elim

end Bus.Embeds

end ObjectBus
