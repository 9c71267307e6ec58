import ObjectBus.Proofs.Dispatch
import ObjectBus.Proofs.Effect.Operations

/-!
# Stale registrations

A registration is current if the node that it is for is live, stands at the address now, and still
has the name. All operations keep all registrations current, but for one: a destroyed node withdraws
the nodes below it only with the names that lead to a live value, so a name whose value was moved
out stays registered while its node comes to another address (`Bus.Strands`).

Runs that strand nothing keep all registrations current, and what is stranded is exactly what makes
the difference (`current_iff_not_strands`).
-/

set_option autoImplicit false

namespace ObjectBus.Bus

/-- **All registrations are current**, on all live transports. -/
def Current (b : Bus) : Prop :=
  ∀ t a k o, b.isLiveServer t = true → b.Registered t a k o → ∃ n, o = some n ∧ b.Names n t a k

/-- **Destroying `n` strands a registration**: a node below it keeps one at an address that it
leaves. -/
def Strands (levels : Nat) (b : Bus) (n : NodeId) : Prop :=
  (∃ x, b.node? n = some x ∧ x.handles = 1) ∧
    ∃ t a k d, b.isLiveServer t = true ∧ b.Moves n d ∧ b.Registered t a k (some d) ∧
      ¬b.Vacates n t a k ∧ ((Operation.dropNode n).apply levels b).addressOn d t ≠ some a

/-! ## Where nodes stand later -/

section Move

variable {b b' : Bus} {n : NodeId} {t : TransportId} {a : Address} {k : String}

theorem At.exists_node (h : b.At n t a) : ∃ x, b.node? n = some x := by
  obtain ⟨x, hx, -⟩ := h
  exact ⟨x, hx⟩

/-- A node that has moved nowhere stands where it stood. -/
theorem At.move {x x' : Node} (h : b.At n t a) (hx : b.node? n = some x)
    (hx' : b'.node? n = some x') (hservers : t ∈ x.servers → t ∈ x'.servers)
    (hlive : b'.isLiveServer t = true) (hpath : b'.forest.path n = b.forest.path n)
    (hroot : b'.rootOf t = b.rootOf t) : b'.At n t a := by
  obtain ⟨ht, ha⟩ := (at_iff hx).1 h
  refine (at_iff hx').2 ⟨mem_transportsOf.2 ⟨hservers (mem_transportsOf.1 ht).1, hlive⟩, ?_⟩
  rw [addressOn_congr hpath hroot, ha]

theorem Names.exists_node (h : b.Names n t a k) : ∃ x, b.node? n = some x := h.1.exists_node

theorem SameAt.names (hsame : b.SameAt b' n) (hlive : b'.isLiveServer t = true)
    (hroot : b'.rootOf t = b.rootOf t) (h : b.Names n t a k) : b'.Names n t a k := by
  obtain ⟨hat, x, i, hx, hk⟩ := h
  obtain ⟨x', hx', hholdings⟩ := hsame.node? hx
  obtain ⟨hservers, hinterfaces, -⟩ := Node.eq_of_holdings hholdings
  exact ⟨hat.move hx hx' (fun ht => hservers ▸ ht) hlive hsame.path hroot, x', i, hx',
    hinterfaces ▸ hk⟩

/-- The node that has changed keeps a name under which it is registered still. -/
theorem AtNode.names {x x' : Node} (hc : b.AtNode b' n x x') (hlive : b'.isLiveServer t = true)
    (hservers : t ∈ x.servers → t ∈ x'.servers)
    (htable : ∀ i, Entries.get? k x.interfaces = some i →
      ∃ j, Entries.get? k x'.interfaces = some j) (h : b.Names n t a k) : b'.Names n t a k := by
  obtain ⟨hat, y, i, hy, hk⟩ := h
  obtain rfl := Option.some.inj (hc.before.symm.trans hy)
  obtain ⟨z, hz, hholdings⟩ := hc.after
  obtain ⟨hserv, hint, -⟩ := Node.eq_of_holdings hholdings
  obtain ⟨j, hj⟩ := htable i hk
  exact ⟨hat.move hc.before hz (fun ht => hserv ▸ hservers ht) hlive hc.path (hc.later.roots t),
    z, j, hz, hint ▸ hj⟩

end Move

/-! ## One effect -/

section Effects

variable {b b' : Bus} (hb : b.Sound) (hcur : b.Current)

include hcur

theorem Quiet.current (hb : b.Sound) (h : b.Quiet b') : b'.Current := by
  intro t a k o hlive hr
  have hr := (h.registered t a k o).1 hr
  have ht := registered_lt hb hr
  obtain ⟨n, rfl, hn⟩ := hcur t a k o (h.later.servers ht hlive) hr
  obtain ⟨x, hx⟩ := hn.exists_node
  exact ⟨n, rfl, (h.old hx).names hlive (h.later.roots ht) hn⟩

/-- A change of one node keeps a registration current that it leaves in place, if it keeps it for
this node. -/
theorem AtNode.current {n : NodeId} {x x' : Node} (h : b.AtNode b' n x x') {t : TransportId}
    {a : Address} {k : String} {o : Option NodeId} (hlive : b'.isLiveServer t = true)
    (hr : b.Registered t a k o) (hself : b.Names n t a k → b'.Names n t a k) :
    ∃ m, o = some m ∧ b'.Names m t a k := by
  obtain ⟨m, rfl, hm⟩ := hcur t a k o (h.later.servers hlive) hr
  refine ⟨m, rfl, ?_⟩
  by_cases hmn : m = n
  · subst hmn
    exact hself hm
  · exact (h.others m hmn).names hlive (h.later.roots t) hm

theorem Dropped.current {n : NodeId} {x : Node} {name : String} (h : b.Dropped b' n x name) :
    b'.Current := by
  intro t a k o hlive hr
  obtain ⟨hr, hkeeps⟩ := (h.registered t a k o).1 hr
  refine h.node.current hcur hlive hr fun hnames => h.node.names hlive id (fun i hi => ?_) hnames
  have hne : k ≠ name := fun hk => hkeeps ⟨hnames.1, hk⟩
  exact ⟨i, by rw [Node.interfaces_dropName, Entries.get?_drop_of_ne hne, hi]⟩

theorem Unbound.current {n : NodeId} {x : Node} {t₀ : TransportId} (h : b.Unbound b' n x t₀) :
    b'.Current := by
  intro t a k o hlive hr
  obtain ⟨hr, hkeeps⟩ := (h.registered t a k o).1 hr
  refine h.node.current hcur hlive hr fun hnames =>
    h.node.names hlive (fun ht => ?_) (fun i hi => ⟨i, hi⟩) hnames
  have hne : t ≠ t₀ := fun htt => hkeeps ⟨htt, hnames⟩
  exact List.mem_filter.2 ⟨ht, by simpa using hne⟩

theorem Managed.current {n : NodeId} {x : Node} {object : Option ObjectId}
    (h : b.Managed b' n x object) : b'.Current := by
  intro t a k o hlive hr
  exact h.node.current hcur hlive ((h.registered t a k o).1 hr) fun hnames =>
    h.node.names hlive id (fun i hi => ⟨i, hi⟩) hnames

theorem Attached.current {n : NodeId} {x : Node} {name : String} {i : InterfaceId}
    (h : b.Attached b' n x name i) : b'.Current := by
  intro t a k o hlive hr
  obtain ⟨z, hz, hholdings⟩ := h.node.after
  have htable : ∀ j, Entries.get? k x.interfaces = some j →
      ∃ j', Entries.get? k (Entries.put name i x.interfaces) = some j' := by
    intro j hj
    by_cases hk : k = name
    · exact ⟨i, by rw [hk, Entries.get?_put_self]⟩
    · exact ⟨j, by rw [Entries.get?_put_of_ne hk, hj]⟩
  rcases h.only hr with hr | ⟨hat, rfl, rfl⟩
  · exact h.node.current hcur hlive hr fun hnames => h.node.names hlive id htable hnames
  · have hnew : Entries.get? k (Entries.put k i x.interfaces) = some i :=
      Entries.get?_put_self _ _ _
    obtain ⟨hserv, hint, -⟩ := Node.eq_of_holdings hholdings
    exact ⟨n, rfl, hat.move h.node.before hz (fun ht => hserv ▸ ht) hlive h.node.path
      (h.node.later.roots t), z, i, hz, hint ▸ hnew⟩

theorem Bound.current {n : NodeId} {x : Node} {t₀ : TransportId} (h : b.Bound b' n x t₀) :
    b'.Current := by
  intro t a k o hlive hr
  rcases h.only hr with hr | ⟨rfl, hoffer, rfl⟩
  · exact h.node.current hcur hlive hr fun hnames =>
      h.node.names hlive (List.mem_append_left _) (fun i hi => ⟨i, hi⟩) hnames
  · exact ⟨n, rfl, hoffer.names⟩

theorem Effect.current (hb : b.Sound) (h : b.Effect b') : b'.Current := by
  cases h with
  | quiet h => exact h.current hcur hb
  | dropped h => exact h.current hcur
  | unbound h => exact h.current hcur
  | managed h => exact h.current hcur
  | attached h => exact h.current hcur
  | bound h => exact h.current hcur

/-- **Destroying a node** keeps all registrations current, unless a moved node keeps one at an
address that it leaves. -/
theorem Destroyed.current {n : NodeId} (h : b.Destroyed b' n)
    (hstays : ∀ t a k d, b.isLiveServer t = true → b.Moves n d → b.Registered t a k (some d) →
      ¬b.Vacates n t a k → b'.addressOn d t = some a) : b'.Current := by
  intro t a k o hlive hr
  rcases h.only hr with ⟨hr, hnot⟩ | ⟨d, rfl, -, hoffer⟩
  · have hlive' := h.later.servers hlive
    obtain ⟨m, rfl, hm⟩ := hcur t a k o hlive' hr
    refine ⟨m, rfl, ?_⟩
    have hmn : m ≠ n := by
      rintro rfl
      exact hnot (Or.inl hm)
    by_cases hmoves : b.Moves n m
    · -- a moved node has what it had, and its address is the same by chance
      obtain ⟨hat, x, i, hx, hk⟩ := hm
      have hx' := h.others m hmn
      rw [hx] at hx'
      obtain ⟨x', hx', hholdings⟩ := Option.map_eq_some_iff.1 hx'
      obtain ⟨hservers, hinterfaces, -⟩ := Node.eq_of_holdings hholdings
      have ht := ((at_iff hx).1 hat).1
      refine ⟨(at_iff hx').2 ⟨mem_transportsOf.2 ⟨?_, hlive⟩, hstays t a k m hlive' hmoves hr hnot⟩,
        x', i, hx', hinterfaces ▸ hk⟩
      rw [hservers]
      exact (mem_transportsOf.1 ht).1
    · have hsame : b.SameAt b' m := ⟨h.others m hmn, h.stays m hmn hmoves⟩
      exact hsame.names hlive (h.later.roots t) hm
  · exact ⟨d, rfl, hoffer.names⟩

end Effects

/-! ## One operation -/

theorem Names.isLiveNode {b : Bus} (hh : b.Held) {n : NodeId} {t : TransportId} {a : Address}
    {k : String} (h : b.Names n t a k) : b.isLiveNode n = true := by
  obtain ⟨x, hx⟩ := h.exists_node
  exact hh.isLiveNode hx

/-- Current registrations are for live nodes. -/
theorem Current.tenanted {b : Bus} (hh : b.Held) (hcur : b.Current) : b.Tenanted := by
  intro t a k o hlive hr
  obtain ⟨n, rfl, hn⟩ := hcur t a k o hlive hr
  exact ⟨n, rfl, hn.isLiveNode hh⟩

/-- **An operation keeps all registrations current if and only if it strands none.** -/
theorem current_iff_not_strands {b : Bus} (hb : b.Sound) (hh : b.Held) (hcur : b.Current)
    (levels : Nat) (op : Operation) :
    (op.apply levels b).Current ↔ ∀ n, op = .dropNode n → ¬b.Strands levels n := by
  constructor
  · rintro hcur' n rfl ⟨⟨x, hx, hlast⟩, t, a, k, d, hlive, hmoves, hr, hnot, haddress⟩
    have hdestroyed := (releaseNode_last hb hh levels hx hlast).2
    have heq : (Operation.dropNode n).apply levels b =
        b.releaseNode (.ofLevels (levels + 1)) n := by
      simp only [Operation.apply, hh.isLiveNode hx, if_true]
    rw [heq] at hcur' haddress
    -- the stranded registration is still there, but not at the address of its node
    obtain ⟨y, hy⟩ := hmoves.1.exists_node
    have hr' := hdestroyed.keeps hr (hmoves.ne hb) (hh.isLiveNode hy) hnot
    obtain ⟨m, hm, hnames⟩ := hcur' t a k _ ((hdestroyed.servers t).trans hlive) hr'
    rw [Option.some.injEq] at hm
    subst hm
    exact haddress hnames.1.address
  · intro hno
    rcases (proceeds_apply hb hh levels op).effect fun _ => hcur.tenanted hh with
      heffect | ⟨n, x, rfl, hx, hlast, hdestroyed⟩
    · exact heffect.current hcur hb
    · refine hdestroyed.current hcur fun t a k d hlive hmoves hr hnot => ?_
      by_contra haddress
      exact hno n rfl ⟨⟨x, hx, hlast⟩, t, a, k, d, hlive, hmoves, hr, hnot, haddress⟩

/-! ## Runs -/

/-- **An operation that strands nothing.** -/
abbrev StrandsNothing (levels : Nat) (b : Bus) (op : Operation) : Prop :=
  ∀ n, op = .dropNode n → ¬b.Strands levels n

/-- A run that drops no handle to a node strands nothing. -/
theorem reaches_after_of_no_drop {levels : Nat} {ops : List Operation}
    (h : ∀ op ∈ ops, ∀ n, op ≠ .dropNode n) :
    (Bus.after levels ops).Reaches levels (StrandsNothing levels) :=
  reaches_after fun _ op hfront n hop =>
    absurd hop (h op (hfront.subset (List.mem_append_right _ List.mem_cons_self)) n)

theorem current_of_reaches {levels : Nat} {b : Bus}
    (hb : b.Reaches levels (StrandsNothing levels)) : b.Current := by
  induction hb with
  | empty =>
      rintro t a k o hlive -
      cases hlive
  | step op hb hop ih =>
      obtain ⟨hsound, hheld⟩ := hb.reachable.sound_held
      exact (current_iff_not_strands hsound hheld ih levels op).2 hop
  | elsewhere hb hu ih => exact hu.quiet.current ih hb.reachable.sound_held.1

/-- **What a request is for** is registered where it was sent, and its node has it. -/
theorem registered_of_resolve {b : Bus} {l : Loopback} {address interface : String}
    {i : InterfaceId} {f : Interface} (h : b.resolve l address interface = .ok (i, f)) :
    ∃ a n x v, Address.parse address = .ok a ∧ l.Registers a interface (some n) ∧
      b.node? n = some x ∧ Entries.get? interface x.interfaces = some i ∧
      b.interface? i = some v ∧ v.interface = f := by
  obtain ⟨-, a, n, x, ha, hr, -, hx, hi, -, v, hv, hf⟩ := resolve_eq_ok_iff.1 h
  exact ⟨a, n, x, v, ha, hr, hx, hi, hv, hf⟩

/-- **No stale registration.** As long as no destroyed node strands a registration, every
registration is of a live node that is bound to the transport, stands at the address now and has the
name; a request reaches only a value that is attached to the node at its address; and the next
operation keeps all this if and only if it strands no registration either. -/
theorem no_stale_registration {levels : Nat} {b : Bus}
    (hb : b.Reaches levels (StrandsNothing levels)) :
    (∀ t a k o, b.isLiveServer t = true → b.Registered t a k o →
      ∃ n x i, o = some n ∧ b.isLiveNode n = true ∧ b.node? n = some x ∧ t ∈ x.servers ∧
        Address.parse (b.addressText n t) = .ok a ∧ Entries.get? k x.interfaces = some i) ∧
    (∀ t l address interface i f, b.isLiveServer t = true → b.loopback? t = some l →
      b.resolve l address interface = .ok (i, f) →
      ∃ a n x v, Address.parse address = .ok a ∧ b.isLiveNode n = true ∧ b.node? n = some x ∧
        t ∈ x.servers ∧ Address.parse (b.addressText n t) = .ok a ∧
        Entries.get? interface x.interfaces = some i ∧ b.interface? i = some v ∧
        v.interface = f ∧ f.name = interface ∧ v.owner = some n) ∧
    ∀ op, (op.apply levels b).Current ↔ StrandsNothing levels b op := by
  obtain ⟨hsound, hheld⟩ := hb.reachable.sound_held
  have hcur := current_of_reaches hb
  have hplace : ∀ {n t a k}, b.Names n t a k → ∃ x i, b.isLiveNode n = true ∧
      b.node? n = some x ∧ t ∈ x.servers ∧ Address.parse (b.addressText n t) = .ok a ∧
      Entries.get? k x.interfaces = some i := by
    rintro n t a k ⟨hat, x, i, hx, hk⟩
    obtain ⟨ht, ha⟩ := (at_iff hx).1 hat
    exact ⟨x, i, hheld.isLiveNode hx, hx, (mem_transportsOf.1 ht).1, readAddress_eq_some.1 ha, hk⟩
  refine ⟨?_, ?_, current_iff_not_strands hsound hheld hcur levels⟩
  · intro t a k o hlive hr
    obtain ⟨n, rfl, hn⟩ := hcur t a k o hlive hr
    obtain ⟨x, i, hx⟩ := hplace hn
    exact ⟨n, x, i, rfl, hx⟩
  · intro t l address interface i f hlive hl hresolve
    obtain ⟨a, n, x, v, ha, hr, hx, hk, hv, rfl⟩ := registered_of_resolve hresolve
    obtain ⟨m, hm, hnames⟩ := hcur t a interface _ hlive ⟨l, hl, hr⟩
    rw [Option.some.injEq] at hm
    subst hm
    obtain ⟨y, j, hnlive, hy, ht, haddress, -⟩ := hplace hnames
    obtain rfl := Option.some.inj (hx.symm.trans hy)
    obtain ⟨hname, howner⟩ := hsound.entry hx hk hv
    exact ⟨a, n, x, v, ha, hnlive, hx, ht, haddress, hk, hv, rfl, hname, howner⟩

/-- A value that was moved out of its handle leaves a name behind, which is registered still; all
registrations are current all the same. -/
theorem no_stale_registration_after_moving_out :
    let b := Bus.after 0 [.openLoopback { name := "t", root := "/" }, .makeRoot "r", .bind 0 0,
      .build { name := "I" }, .makeInterface 1 0, .takeOut 1]
    (b.loopback? 0).map (·.addresses) = some ["/r"] ∧ b.isLiveInterface 1 = false ∧
      ∀ op, (op.apply 0 b).Current ↔ StrandsNothing 0 b op := by
  intro b
  have hb : b.Reaches 0 (StrandsNothing 0) := reaches_after_of_no_drop (by simp)
  exact ⟨by decide +kernel, by decide +kernel, (no_stale_registration hb).2.2⟩

end ObjectBus.Bus
