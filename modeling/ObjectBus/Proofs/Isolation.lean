import ObjectBus.Proofs.Effect.Operations

/-!
# What an operation on a node does to other nodes

A transport knows addresses and names, and a name that is dropped at an address is dropped for
whichever node it is registered; what is managed at an address is cleared or replaced in the same
way. So an operation on one node reaches another node as soon as both stand at one address.

`Bus.TakesAway` and `Bus.Overrides` say exactly what an operation takes from whom. Where no node of
the subtree comes to the address of another node, they are empty, and the other node keeps all it
has (`isolated_of_alone`).
-/

set_option autoImplicit false

namespace ObjectBus.Bus

/-- **An operation on a node**, or on a value that is attached to it. -/
inductive Concerns (b : Bus) (n : NodeId) : Operation → Prop
  | dropNode : Concerns b n (.dropNode n)
  | detach (name : String) : Concerns b n (.detach n name)
  | dropInterface {i : InterfaceId} {y : Instance} (hi : b.interface? i = some y)
      (ho : y.owner = some n) : Concerns b n (.dropInterface i)
  | unbind (t : TransportId) : Concerns b n (.unbind n t)
  | manage (object : Option ObjectId) : Concerns b n (.manage n object)

/-- **An operation takes a name away** at an address, for whichever node it is registered. -/
def TakesAway (b : Bus) : Operation → TransportId → Address → String → Prop
  | .dropNode n, t, a, k => (∃ x, b.node? n = some x ∧ x.handles = 1) ∧ b.Vacates n t a k
  | .detach n name, t, a, k => b.Names n t a name ∧ k = name
  | .dropInterface i, t, a, k =>
      (∃ y, b.interface? i = some y ∧ y.handles = 1) ∧ ∃ n x, b.Clearing i n x k ∧ b.At n t a
  | .unbind n t₀, t, a, k => t = t₀ ∧ b.Names n t a k
  | _, _, _, _ => False

/-- **An operation overrides what is managed** at an address. When a node is destroyed, the last of
the moved nodes that comes to the address with an object decides; without one, the address is
cleared if the node or a moved node had an object there. -/
def Overrides (levels : Nat) (b : Bus) : Operation → TransportId → Address → ObjectId → Prop
  | .dropNode n, t, a, o =>
      (∃ x, b.node? n = some x ∧ x.handles = 1) ∧
        match ((b.movers n).filter
          (((Operation.dropNode n).apply levels b).marks t a)).getLast? with
        | some d => ¬((Operation.dropNode n).apply levels b).Presents d t a o
        | none => b.Clears n t a
  | .unbind n t₀, t, a, _ => t = t₀ ∧ ∃ o', b.Presents n t a o'
  | .manage n object, t, a, o => b.At n t a ∧ object ≠ some o
  | _, _, _, _ => False

/-- **What remains of a node's registrations, and of what is managed**: exactly what an operation
does not take away or override. -/
structure Leaves (levels : Nat) (b : Bus) (op : Operation) (m : NodeId) : Prop where
  registered : ∀ {t a k}, b.Registered t a k (some m) →
    ((op.apply levels b).Registered t a k (some m) ↔ ¬b.TakesAway op t a k)
  managed : ∀ {t a o}, b.managed? t a = some o →
    ((op.apply levels b).managed? t a = some o ↔ ¬b.Overrides levels op t a o)

theorem loopback?_isSome_of_managed {b : Bus} {t : TransportId} {a : Address} {o : ObjectId}
    (ho : b.managed? t a = some o) : (b.loopback? t).isSome = true := by
  obtain ⟨l, hl, -⟩ := Option.bind_eq_some_iff.1 ho
  rw [hl]
  rfl

section Operations

variable {b : Bus} (hb : b.Sound) (hh : b.Held) (levels : Nat) {n m : NodeId}

/-- A quiet operation leaves everything. -/
theorem Quiet.leaves {op : Operation} (h : b.Quiet (op.apply levels b))
    (htakes : ∀ t a k, ¬b.TakesAway op t a k)
    (hoverrides : ∀ t a o, ¬b.Overrides levels op t a o) : b.Leaves levels op m where
  registered hr := by
    rw [h.registered]
    exact iff_of_true hr (htakes _ _ _)
  managed ho := by
    rw [h.managed]
    exact iff_of_true ho (hoverrides _ _ _)

theorem leaves_refl {op : Operation} (h : op.apply levels b = b)
    (htakes : ∀ t a k, ¬b.TakesAway op t a k)
    (hoverrides : ∀ t a o, ¬b.Overrides levels op t a o) : b.Leaves levels op m := by
  refine Quiet.leaves levels ?_ htakes hoverrides
  rw [h]
  exact quiet_of_same rfl (fun _ => rfl) (Later.refl b).below

include hb hh

theorem leaves_dropNode (hmlive : b.isLiveNode m = true) (hm : m ≠ n)
    (hbelow : ¬b.forest.Below n m) : b.Leaves levels (.dropNode n) m := by
  cases hn : b.node? n with
  | none =>
      have hsame : (Operation.dropNode n).apply levels b = b := by
        have hget : b.forest.get? n = none := hn
        simp [Operation.apply, isLiveNode, Forest.isLive, hget]
      refine leaves_refl levels hsame ?_ ?_
      · rintro t a k ⟨⟨x, hx, -⟩, -⟩
        rw [hn] at hx
        cases hx
      · rintro t a o ⟨⟨x, hx, -⟩, -⟩
        rw [hn] at hx
        cases hx
  | some x =>
      have heq : (Operation.dropNode n).apply levels b =
          b.releaseNode (.ofLevels (levels + 1)) n := by
        simp only [Operation.apply, hh.isLiveNode hn, if_true]
      by_cases hlast : x.handles = 1
      · have hd := (releaseNode_last hb hh levels hn hlast).2
        rw [← heq] at hd
        refine ⟨fun {t a k} hr => ?_, fun {t a o} ho => ?_⟩
        · have htakes : b.TakesAway (.dropNode n) t a k ↔ b.Vacates n t a k :=
            and_iff_right ⟨x, hn, hlast⟩
          rw [htakes]
          refine ⟨fun hr' => ?_, hd.keeps hr hm hmlive⟩
          rcases hd.only hr' with ⟨-, hstays⟩ | ⟨d, hd', hmoves, -⟩
          · exact hstays
          · -- the registration would be that of a moved node
            rw [Option.some.injEq] at hd'
            exact absurd (hd' ▸ hmoves.1) hbelow
        · have hlast' : ∃ x, b.node? n = some x ∧ x.handles = 1 := ⟨x, hn, hlast⟩
          rw [hd.managed (loopback?_isSome_of_managed ho) o, Overrides, and_iff_right hlast']
          cases ((b.movers n).filter
              (((Operation.dropNode n).apply levels b).marks t a)).getLast? with
          | some d => exact not_not.symm
          | none => exact and_iff_right ho
      · have hquiet := (releaseNode_more hb hh levels hn hlast).2
        rw [← heq] at hquiet
        refine hquiet.leaves levels ?_ ?_
        · rintro t a k ⟨⟨x', hx', hlast'⟩, -⟩
          obtain rfl := Option.some.inj (hn.symm.trans hx')
          exact hlast hlast'
        · rintro t a o ⟨⟨x', hx', hlast'⟩, -⟩
          obtain rfl := Option.some.inj (hn.symm.trans hx')
          exact hlast hlast'

theorem leaves_detach (name : String) : b.Leaves levels (.detach n name) m := by
  have hoverrides : ∀ t a o, ¬b.Overrides levels (.detach n name) t a o := fun _ _ _ h => h
  have hnone : ∀ {x}, b.node? n = some x → Entries.get? name x.interfaces = none →
      ∀ t a k, ¬b.TakesAway (.detach n name) t a k := by
    rintro x hn hk t a k ⟨⟨-, x', i, hx', hk'⟩, -⟩
    obtain rfl := Option.some.inj (hn.symm.trans hx')
    rw [hk] at hk'
    cases hk'
  cases hn : b.node? n with
  | none =>
      refine leaves_refl levels (by simp only [Operation.apply, detach, hn]) ?_ hoverrides
      rintro t a k ⟨⟨-, x, i, hx, -⟩, -⟩
      rw [hn] at hx
      cases hx
  | some x =>
      cases hk : Entries.get? name x.interfaces with
      | none =>
          exact leaves_refl levels (by simp only [Operation.apply, detach, hn, hk]) (hnone hn hk)
            hoverrides
      | some i =>
          have hd := (detach_spec hb hh (.ofLevels (levels + 1)) hn hk).2
          refine ⟨fun {t a k} hr => ?_, fun {t a o} ho => ?_⟩
          · have hnames : b.Names n t a name ↔ b.At n t a :=
              ⟨And.left, fun hat => ⟨hat, x, i, hn, hk⟩⟩
            calc ((Operation.detach n name).apply levels b).Registered t a k (some m)
                ↔ b.Registered t a k (some m) ∧ ¬(b.At n t a ∧ k = name) := hd.registered t a k _
              _ ↔ ¬(b.At n t a ∧ k = name) := and_iff_right hr
              _ ↔ ¬b.TakesAway (.detach n name) t a k := by rw [← hnames]; rfl
          · refine iff_of_true ?_ (hoverrides t a o)
            exact (hd.managed t a).trans ho

theorem leaves_dropInterface {i : InterfaceId} {y : Instance} (hi : b.interface? i = some y) :
    b.Leaves levels (.dropInterface i) m := by
  have hoverrides : ∀ t a o, ¬b.Overrides levels (.dropInterface i) t a o := fun _ _ _ h => h
  have heq : (Operation.dropInterface i).apply levels b =
      b.releaseInterface (.ofLevels (levels + 1)) i := by
    simp only [Operation.apply, hh.isLiveInterface hi, if_true]
  by_cases hlast : y.handles = 1
  · have hreleased := releaseInterface_last levels hb hh hi hlast
    rw [← heq] at hreleased
    rcases hreleased.effect with ⟨n, x, name, hclearing, hd⟩ | ⟨hno, hquiet⟩
    · refine ⟨fun {t a k} hr => ?_, fun {t a o} ho => ?_⟩
      · have htakes : b.TakesAway (.dropInterface i) t a k ↔ b.At n t a ∧ k = name := by
          constructor
          · -- a value believes in one name of one node
            rintro ⟨-, n', x', hclearing', hat⟩
            obtain ⟨z, hz, ho, hname⟩ := hclearing.value
            obtain ⟨z', hz', ho', hname'⟩ := hclearing'.value
            obtain rfl := Option.some.inj (hz.symm.trans hz')
            obtain rfl := Option.some.inj (ho.symm.trans ho')
            exact ⟨hat, hname'.symm.trans hname⟩
          · rintro ⟨hat, rfl⟩
            exact ⟨⟨y, hi, hlast⟩, n, x, hclearing, hat⟩
        rw [hd.registered, and_iff_right hr, htakes]
      · rw [hd.managed]
        exact iff_of_true ho (hoverrides t a o)
    · refine hquiet.leaves levels ?_ hoverrides
      rintro t a k ⟨-, n, x, hclearing, -⟩
      exact hno n x k hclearing
  · have hquiet := (releaseInterface_more levels hb hh hi hlast).2
    rw [← heq] at hquiet
    refine hquiet.leaves levels ?_ hoverrides
    rintro t a k ⟨⟨y', hy', hlast'⟩, -⟩
    obtain rfl := Option.some.inj (hi.symm.trans hy')
    exact hlast hlast'

theorem leaves_unbind (t₀ : TransportId) : b.Leaves levels (.unbind n t₀) m := by
  have hnone : (∀ a, ¬b.At n t₀ a) → (Operation.unbind n t₀).apply levels b = b →
      b.Leaves levels (.unbind n t₀) m := by
    intro hat hsame
    refine leaves_refl levels hsame ?_ ?_
    · rintro t a k ⟨rfl, hnames⟩
      exact hat a hnames.1
    · rintro t a o ⟨rfl, o', hpresents⟩
      exact hat a hpresents.1
  by_cases hlive : b.isLiveServer t₀ = true
  · cases hn : b.node? n with
    | none =>
        refine hnone (fun a hat => ?_) (by simp only [Operation.apply, unbind, hn, hlive, if_true])
        obtain ⟨x, hx, -⟩ := hat
        rw [hn] at hx
        cases hx
    | some x =>
        by_cases ht : t₀ ∈ x.servers
        · have hu := (unbind_spec hb hh (.ofLevels (levels + 1)) hn hlive ht).2
          have heq : (Operation.unbind n t₀).apply levels b =
              (b.unbind (.ofLevels (levels + 1)) n t₀).2 := by
            simp only [Operation.apply, hlive, if_true]
          rw [← heq] at hu
          refine ⟨fun {t a k} hr => ?_, fun {t a o} ho => ?_⟩
          · rw [hu.registered, and_iff_right hr]
            rfl
          · rw [hu.managed, and_iff_right ho]
            rfl
        · have hno : x.servers.contains t₀ = false := by simpa using ht
          refine hnone (fun a hat => ?_) (by
            simp only [Operation.apply, unbind, hn, hno, hlive, Bool.not_false, if_true])
          exact ht (mem_transportsOf.1 ((at_iff hn).1 hat).1).1
  · exact hnone (fun a hat => hlive hat.live) (by
      simp only [Operation.apply, hlive, Bool.false_eq_true, if_false])

theorem leaves_manage (object : Option ObjectId) : b.Leaves levels (.manage n object) m := by
  have htakes : ∀ t a k, ¬b.TakesAway (.manage n object) t a k := fun _ _ _ h => h
  cases hn : b.node? n with
  | none =>
      refine leaves_refl levels (by simp only [Operation.apply, manage, hn]) htakes ?_
      rintro t a o ⟨⟨x, hx, -⟩, -⟩
      rw [hn] at hx
      cases hx
  | some x =>
      have hd := (manage_spec hb hh (.ofLevels (levels + 1)) hn object).2
      refine ⟨fun {t a k} hr => ?_, fun {t a o} ho => ?_⟩
      · exact iff_of_true ((hd.registered t a k _).2 hr) (htakes t a k)
      · show (b.manage (.ofLevels (levels + 1)) n object).managed? t a = some o ↔ _
        by_cases hat : b.At n t a
        · -- here the object of the node replaces whatever there is
          rw [hd.here hat (loopback?_isSome_of_managed ho)]
          simp [Overrides, hat]
        · rw [hd.elsewhere hat]
          exact iff_of_true ho fun hover => hat hover.1

end Operations

/-! ## A node with an address of its own -/

/-- An operation takes nothing away, and overrides nothing, where no node of the subtree is before
or afterwards. -/
theorem isolated_of_alone {levels : Nat} {b : Bus} {op : Operation} {n : NodeId}
    (hop : b.Concerns n op) (hb : b.Sound) {t : TransportId} {a : Address}
    (hbefore : ∀ d, d = n ∨ b.forest.Below n d → ¬b.At d t a)
    (hafter : ∀ d, b.forest.Below n d → ¬(op.apply levels b).At d t a) :
    (∀ k, ¬b.TakesAway op t a k) ∧ ∀ o, ¬b.Overrides levels op t a o := by
  have hn := hbefore n (Or.inl rfl)
  cases hop with
  | dropNode =>
      refine ⟨?_, ?_⟩
      · rintro k ⟨-, hnames | ⟨d, hd, hoffer⟩⟩
        · exact hn hnames.1
        · exact hbefore d (Or.inr hd.1) hoffer.1
      · rintro o ⟨-, hover⟩
        cases hlast : ((b.movers n).filter
            (((Operation.dropNode n).apply levels b).marks t a)).getLast? with
        | some d =>
            obtain ⟨hmem, hmarks⟩ := List.mem_filter.1 (List.mem_of_getLast? hlast)
            obtain ⟨o', ho'⟩ := marks_iff.1 hmarks
            exact hafter d ((mem_movers_iff hb).1 hmem).1 ho'.1
        | none =>
            rw [hlast] at hover
            obtain ⟨d, o', rfl | hd, hpresents⟩ := hover
            · exact hn hpresents.1
            · exact hbefore d (Or.inr hd.1) hpresents.1
  | detach name => exact ⟨fun k h => hn h.1.1, fun _ h => h⟩
  | @dropInterface i y hi ho =>
      refine ⟨?_, fun _ h => h⟩
      rintro k ⟨-, n', x, hclearing, hat⟩
      obtain ⟨y', hy', ho', -⟩ := hclearing.value
      obtain rfl := Option.some.inj (hi.symm.trans hy')
      obtain rfl := Option.some.inj (ho.symm.trans ho')
      exact hn hat
  | unbind t₀ =>
      refine ⟨?_, ?_⟩
      · rintro k ⟨rfl, hnames⟩
        exact hn hnames.1
      · rintro o ⟨rfl, o', hpresents⟩
        exact hn hpresents.1
  | manage object => exact ⟨fun _ h => h, fun _ h => hn h.1⟩

/-! ## Isolation -/

/-- **Isolation between nodes.** In every reachable bus, an operation on a node, or on one of its
values, removes and replaces of the registrations of another live node outside of its subtree
exactly those that it takes away at an address, and of what is managed exactly what it overrides
there; and it does neither at an address where no node of the subtree is before or afterwards. -/
theorem isolation {levels : Nat} {b : Bus} (hb : b.Reachable levels) {op : Operation} {n m : NodeId}
    (hop : b.Concerns n op) (hlive : b.isLiveNode m = true) (hm : m ≠ n)
    (hbelow : ¬b.forest.Below n m) :
    (∀ t a k, b.Registered t a k (some m) →
      ((op.apply levels b).Registered t a k (some m) ↔ ¬b.TakesAway op t a k)) ∧
    (∀ t a o, b.managed? t a = some o →
      ((op.apply levels b).managed? t a = some o ↔ ¬b.Overrides levels op t a o)) ∧
    ∀ t a, (∀ d, d = n ∨ b.forest.Below n d → ¬b.At d t a) →
      (∀ d, b.forest.Below n d → ¬(op.apply levels b).At d t a) →
      (∀ k, ¬b.TakesAway op t a k) ∧ ∀ o, ¬b.Overrides levels op t a o := by
  obtain ⟨hsound, hheld⟩ := hb.sound_held
  have hleaves : b.Leaves levels op m := by
    cases hop with
    | dropNode => exact leaves_dropNode hsound hheld levels hlive hm hbelow
    | detach name => exact leaves_detach hsound hheld levels name
    | dropInterface hi ho => exact leaves_dropInterface hsound hheld levels hi
    | unbind t => exact leaves_unbind hsound hheld levels t
    | manage object => exact leaves_manage hsound hheld levels object
  exact ⟨fun t a k => hleaves.registered, fun t a o => hleaves.managed,
    fun t a => isolated_of_alone hop hsound⟩

/-- A node comes up next to a namesake when its parent is dropped; both have a value of one name. -/
def neighbours : Bus :=
  after 0 [.openLoopback { name := "t", root := "/" }, .makeRoot "r", .bind 0 0, .makeChild 0 "m",
    .makeChild 0 "x", .makeChild 2 "m", .build { name := "I" }, .makeInterface 1 1,
    .build { name := "I" }, .makeInterface 2 3, .dropNode 2]

/-- The transport refused the value of the node that came up; destroying this value takes away the
registration of the other one all the same. -/
theorem isolation_of_neighbours :
    neighbours.Registered 0 ⟨["r", "m"]⟩ "I" (some 1) ∧
      ¬((Operation.dropInterface 2).apply 0 neighbours).Registered 0 ⟨["r", "m"]⟩ "I" (some 1) := by
  have hb : neighbours.Reachable 0 := reaches_after fun _ _ _ => trivial
  have hvalue : (neighbours.interface? 2).map (fun y => (y.owner, y.interface.name, y.handles)) =
      some (some 3, "I", 1) := by decide +kernel
  have hnode : (neighbours.node? 3).map (fun x => (x.servers, Entries.get? "I" x.interfaces)) =
      some ([0], some 2) := by decide +kernel
  have haddress : neighbours.addressOn 3 0 = some ⟨["r", "m"]⟩ := by decide +kernel
  have hlive : neighbours.isLiveServer 0 = true := by decide +kernel
  have hr : neighbours.Registered 0 ⟨["r", "m"]⟩ "I" (some 1) := by decide +kernel
  obtain ⟨y, hy, heq⟩ := Option.map_eq_some_iff.1 hvalue
  obtain ⟨x, hx, heq'⟩ := Option.map_eq_some_iff.1 hnode
  obtain ⟨ho, hname, hlast⟩ : y.owner = some 3 ∧ y.interface.name = "I" ∧ y.handles = 1 := by
    simpa using heq
  obtain ⟨hservers, hk⟩ : x.servers = [0] ∧ Entries.get? "I" x.interfaces = some 2 := by
    simpa using heq'
  have hat : neighbours.At 3 0 ⟨["r", "m"]⟩ :=
    (at_iff hx).2 ⟨mem_transportsOf.2 ⟨hservers ▸ List.mem_cons_self, hlive⟩, haddress⟩
  have hbelow : ¬neighbours.forest.Below 3 1 := fun hbelow => by
    have hlt := hbelow.lt hb.sound_held.1.forest
    exact absurd hlt (by decide)
  have hclearing : neighbours.Clearing 2 3 x "I" := ⟨hx, ⟨y, hy, ho, hname⟩, 2, hk, Or.inl rfl⟩
  refine ⟨hr, fun hr' => ?_⟩
  have hiff := (isolation hb (.dropInterface hy ho) (by decide +kernel) (by decide) hbelow).1 0
    ⟨["r", "m"]⟩ "I" hr
  exact hiff.1 hr' ⟨⟨y, hy, hlast⟩, 3, x, hclearing, hat⟩

end ObjectBus.Bus
