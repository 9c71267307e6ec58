import ObjectBus.Proofs.Effect.Trees

/-!
# Addresses when nodes go

When a node is destroyed its children move up, and all nodes below it get other addresses, or keep
them although they stand in another tree. Below a parent, the name of the destroyed node goes out of
every sequence of names that it stood in, and nothing else happens to them. Below a root, its name
goes into the names of its children, so that every path reads as before.

As in all runs, transports do not call back: the node that goes is gone, with its links rewritten,
before anything else is done.
-/

set_option autoImplicit false

namespace ObjectBus.Bus

/-- A node that loses its last handle is uprooted. -/
theorem forest_dropNode {b : Bus} (hb : b.Sound) (levels : Nat) {x : NodeId} {gone : Node}
    (hx : b.node? x = some gone) (hlast : gone.handles = 1) :
    ((Operation.dropNode x).apply levels b).forest =
      b.forest.uproot x gone.name gone.parent gone.children := by
  have hlive : b.isLiveNode x = true := by
    have hget : b.forest.get? x = some gone := hx
    rw [isLiveNode, Forest.isLive, hget]
    simp [hlast]
  simp only [Operation.apply, hlive, if_true]
  exact forest_releaseNode hb levels hx hlast

/-- Transports stay where they are when a node goes. -/
theorem rootOf_dropNode {b : Bus} (hb : b.Sound) (hh : b.Held) (levels : Nat) {x : NodeId}
    {gone : Node} (hx : b.node? x = some gone) (hlast : gone.handles = 1) (t : TransportId) :
    ((Operation.dropNode x).apply levels b).rootOf t = b.rootOf t := by
  simp only [Operation.apply, hh.isLiveNode hx, if_true]
  exact (releaseNode_last hb hh levels hx hlast).2.later.roots t

/-- **Addresses under destruction.** Of all nodes, `x` alone goes. If it has a parent, its name goes
out of the names of all nodes below it, its children come after the other children of the parent,
and all other nodes keep their names. If it is a root, its children become roots and every path stays
as it is. Addresses join the root of the transport and the names that are left. -/
theorem addresses_after_destruction {levels : Nat} {b : Bus} (hb : b.Reachable levels)
    {x : NodeId} {gone : Node} (hx : b.node? x = some gone) (hlast : gone.handles = 1) :
    let b' := (Operation.dropNode x).apply levels b
    (∀ m, (b'.node? m).isSome ↔ m ≠ x ∧ (b.node? m).isSome) ∧
    (∀ p, gone.parent = some p →
      (∀ d, b.forest.Below x d → ∃ below,
        b.forest.names d = b.forest.names p ++ gone.name :: below ∧
          b'.forest.names d = b.forest.names p ++ below) ∧
      (∃ y, b.node? p = some y ∧
        (b'.node? p).map Node.children = some (y.children.filter (· != x) ++ gone.children)) ∧
      (∀ c ∈ gone.children, (b'.node? c).map Node.parent = some (some p)) ∧
      ∀ m, m ≠ x → ¬b.forest.Below x m → b'.forest.names m = b.forest.names m) ∧
    (gone.parent = none →
      (∀ c ∈ gone.children, (b'.node? c).map Node.parent = some none) ∧
      ∀ m, m ≠ x → b'.forest.path m = b.forest.path m) ∧
    ∀ t m, b'.addressText m t = Address.join (b.rootOf t)
      ("/".intercalate ((b'.forest.names m).filter fun name => !name.isEmpty)) := by
  intro b'
  obtain ⟨hsound, hheld⟩ := hb.sound_held
  have hf := hsound.forest
  have hforest : b'.forest = b.forest.uproot x gone.name gone.parent gone.children :=
    forest_dropNode hsound levels hx hlast
  have hnode : ∀ m, b'.node? m =
      if m = x then none else (b.node? m).map (Forest.movedUp x gone m) := by
    intro m
    rw [node?, hforest]
    exact Forest.get?_uproot hf hx m
  -- whatever the parent of the node is, its children have it now
  have hchild : ∀ c ∈ gone.children, (b'.node? c).map Node.parent = some gone.parent := by
    intro c hc
    obtain ⟨y, hy, hp⟩ := hf.child hx hc
    have hcx : c ≠ x := Nat.ne_of_gt (hf.parent hy hp).1
    have hy' : b.node? c = some y := hy
    rw [hnode, if_neg hcx, hy']
    simp [Forest.movedUp, hc]
  refine ⟨fun m => ?_, fun p hp => ⟨fun d hd => ?_, ?_, ?_, fun m hmx hm => ?_⟩,
    fun hroot => ⟨?_, fun m hmx => ?_⟩, fun t m => ?_⟩
  · rw [hnode]
    by_cases hmx : m = x
    · simp [hmx]
    · simp [hmx]
  · rw [hforest]
    exact Forest.names_uproot_of_below hf hx hp hd
  · obtain ⟨hlt, y, hy, -⟩ := hf.parent hx hp
    have hy' : b.node? p = some y := hy
    refine ⟨y, hy, ?_⟩
    rw [hnode, if_neg (Nat.ne_of_lt hlt), hy']
    simp [Forest.movedUp, hp]
  · rw [← hp]
    exact hchild
  · rw [hforest]
    exact Forest.names_uproot_of_not_below hf hx hmx hm
  · rw [← hroot]
    exact hchild
  · rw [hforest]
    exact Forest.path_uproot_root hf hx hroot hmx
  · rw [addressText, rootOf_dropNode hsound hheld levels hx hlast, Forest.path_eq_names]

/-- The root without a name goes first, and its child `a` is a root now. Then `x` goes from between
`a` and `d`: the sequence of names loses `x`, and `d` stands after the other child of `a`. -/
theorem addresses_after_two_destructions :
    let b := Bus.after 0 [.openRecorder "t" "/", .makeRoot "", .makeChild 0 "a", .makeChild 1 "x",
      .makeChild 2 "", .makeChild 3 "d", .makeChild 1 "e", .dropNode 0]
    let b' := (Operation.dropNode 2).apply 0 b
    (∃ below, b.forest.names 4 = b.forest.names 1 ++ "x" :: below ∧
        b'.forest.names 4 = b.forest.names 1 ++ below) ∧
      b.forest.names 4 = ["a", "x", "", "d"] ∧ b'.addressText 4 0 = "/a/d" ∧
      (b'.node? 1).map Node.children = some [5, 3] := by
  intro b b'
  have hb : b.Reachable 0 := reaches_after fun _ _ _ => trivial
  have hx : b.node? 2 = some
      { name := "x", parent := some 1, children := [3], servers := [], interfaces := [],
        managing := none, handles := 1 } := by rfl
  have hbelow : b.forest.Below 2 4 := by
    have hthree : b.forest.get? 3 = some
        { name := "", parent := some 2, children := [4], servers := [], interfaces := [],
          managing := none, handles := 1 } := by rfl
    have hfour : b.forest.get? 4 = some
        { name := "d", parent := some 3, children := [], servers := [], interfaces := [],
          managing := none, handles := 1 } := by rfl
    exact Forest.Below.step (Forest.Below.child hthree rfl) hfour rfl
  have hall := addresses_after_destruction hb hx rfl
  exact ⟨(hall.2.1 1 rfl).1 4 hbelow, by decide +kernel, by decide +kernel, by decide +kernel⟩

end ObjectBus.Bus
