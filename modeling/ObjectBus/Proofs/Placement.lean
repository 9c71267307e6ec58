import ObjectBus.Proofs.Address
import ObjectBus.Proofs.Attachment
import ObjectBus.Proofs.Bus.Contest
import ObjectBus.Proofs.Isolation

/-!
# Names in place

A name that a node shows on a transport is in place when it is registered there for the node, at the
address where the node is now. Attaching and binding put names in place or are refused. Afterwards a
name is displaced only by another node: by one at the same address that withdraws the same name
(`Bus.Unseats`), or, when the node is moved, by one that holds the new address already
(`Bus.Crowds`). `Bus.Ousts` puts the two together, and every other operation leaves the name in place
(`InPlace.apply`). A name that was displaced can be put in place again, by binding its node anew, and
stays there from then on: nothing is assumed about how a name has come to its place
(`InPlace.of_leadsBy`).

Nothing is assumed about registrations of nodes that are gone. They are in nobody's way: an address is
left to a node as soon as no other live node has a name there (`Bus.Grants`).
-/

set_option autoImplicit false

namespace ObjectBus.Bus

/-- **A node shows a name on a transport**: it is bound to the live transport, and the name leads to a
live value. Whether its path makes an address is another question. -/
def Shows (b : Bus) (n : NodeId) (t : TransportId) (k : String) : Prop :=
  ∃ x i, b.node? n = some x ∧ t ∈ b.transportsOf x ∧ Entries.get? k x.interfaces = some i ∧
    b.isLiveInterface i = true

/-- **A name is in place**: if the node shows it on a loopback transport, the node has an address
there, and the name is registered for it at this address. -/
def InPlace (b : Bus) (n : NodeId) (t : TransportId) (k : String) : Prop :=
  b.Shows n t k → (b.loopback? t).isSome = true →
    ∃ a, b.addressOn n t = some a ∧ b.Registered t a k (some n)

/-- **What an operation takes away at an address**, for whichever node it is registered. When a node
takes a loose value, a copy that believes to be attached elsewhere is destroyed, and a name of the node
that leads to nothing is cleared. -/
def Unseats (b : Bus) : Operation → TransportId → Address → String → Prop
  | .makeInterface i m, t, a, k => b.isLooseInterface i = true ∧ b.isLiveNode m = true ∧
      (b.TakesAway (.dropInterface i) t a k ∨
        b.Names m t a k ∧ ¬b.Offers m t a k ∧
          ∃ y, b.interface? i = some y ∧ y.owner = none ∧ y.interface.name = k)
  | op, t, a, k => b.TakesAway op t a k

/-- **The address to which `n` moves when `p` is destroyed is held already**: by another live node that
stays there, or, where `n` has no name left, by one that moves there before it. -/
def Crowds (levels : Nat) (b : Bus) (p n : NodeId) (t : TransportId) (a : Address) : Prop :=
  (∃ m k, m ≠ n ∧ m ≠ p ∧ b.isLiveNode m = true ∧ b.Registered t a k (some m) ∧
      ¬b.Vacates p t a k) ∨
    (∀ k, b.Registered t a k (some n) → b.Vacates p t a k) ∧
      ∃ front back d k, b.movers p = front ++ n :: back ∧ d ∈ front ∧
        ((Operation.dropNode p).apply levels b).Offers d t a k

/-- **An operation ousts a name** that the node goes on to show: what is registered for it is taken
away on behalf of another node, or the node moves to an address that is held already. -/
inductive Ousts (levels : Nat) (b : Bus) (n : NodeId) (t : TransportId) (k : String) :
    Operation → Prop
  | displaced {op : Operation} {a : Address} (before : b.Shows n t k)
      (after : (op.apply levels b).Shows n t k) (there : b.addressOn n t = some a)
      (stays : ∀ p, op = .dropNode p → ¬b.Moves p n) (unseats : b.Unseats op t a k) :
      Ousts levels b n t k op
  | crowded {p : NodeId} {x : Node} {a : Address} (last : b.node? p = some x ∧ x.handles = 1)
      (moves : b.Moves p n) (after : ((Operation.dropNode p).apply levels b).Shows n t k)
      (there : ((Operation.dropNode p).apply levels b).addressOn n t = some a)
      (crowds : b.Crowds levels p n t a) : Ousts levels b n t k (.dropNode p)

/-! ## What a node shows -/

/-- **What a node shows, it has shown before**, at the same address. -/
structure Recedes (b b' : Bus) (n : NodeId) (t : TransportId) (k : String) : Prop where
  shows : b.Shows n t k
  address : b'.addressOn n t = b.addressOn n t
  kind : (b'.loopback? t).isSome = (b.loopback? t).isSome

theorem Recedes.trans {b b' b'' : Bus} {n : NodeId} {t : TransportId} {k : String}
    (h : b.Recedes b' n t k) (h' : b'.Recedes b'' n t k) : b.Recedes b'' n t k :=
  ⟨h.shows, h'.address.trans h.address, h'.kind.trans h.kind⟩

section Recede

variable {b b' : Bus} {n m : NodeId} {t : TransportId} {k : String}

theorem InPlace.of_recedes (h : b.InPlace n t k) (hback : b'.Shows n t k → b.Recedes b' n t k)
    (hkept : b'.Shows n t k → b.Shows n t k → ∀ a, b.addressOn n t = some a →
      b.Registered t a k (some n) → b'.Registered t a k (some n)) : b'.InPlace n t k := by
  intro hshows hl
  obtain ⟨hbefore, haddress, hkind⟩ := hback hshows
  obtain ⟨a, ha, hr⟩ := h hbefore (hkind.symm.trans hl)
  exact ⟨a, haddress.trans ha, hkept hshows hbefore a ha hr⟩

/-- A node that has the same shows what it has shown. -/
theorem Quiet.recedes (h : b.Quiet b') (hb : b.Sound) (hs : b'.Shows n t k) :
    b.Recedes b' n t k := by
  obtain ⟨x', i, hx', ht, hk, hi⟩ := hs
  obtain ⟨hserver, hlive⟩ := mem_transportsOf.1 ht
  cases hn : b.node? n with
  | none =>
      rw [(h.new hn hx').1] at hk
      cases hk
  | some x =>
      have hsame := h.old hn
      obtain ⟨z, hz, hholdings⟩ := hsame.node? hn
      obtain rfl := Option.some.inj (hx'.symm.trans hz)
      obtain ⟨hservers, hinterfaces, -⟩ := Node.eq_of_holdings hholdings
      rw [hservers] at hserver
      rw [hinterfaces] at hk
      have htnext := hb.bound_lt hn hserver
      exact ⟨⟨x, i, hn, mem_transportsOf.2 ⟨hserver, h.later.servers htnext hlive⟩, hk,
          h.later.values (hb.entry_lt hn hk) hi⟩,
        addressOn_congr hsame.path (h.later.roots htnext), h.later.kinds htnext⟩

/-- A node with fewer transports and names shows what it has shown. -/
theorem AtNode.recedes {x x' : Node} (h : b.AtNode b' m x x')
    (hservers : n = m → t ∈ x'.servers → t ∈ x.servers)
    (hnames : n = m → ∀ i, Entries.get? k x'.interfaces = some i →
      Entries.get? k x.interfaces = some i) (hs : b'.Shows n t k) : b.Recedes b' n t k := by
  obtain ⟨z, i, hz, ht, hk, hi⟩ := hs
  obtain ⟨hserver, hlive⟩ := mem_transportsOf.1 ht
  have hlive₀ := h.later.servers hlive
  have hi₀ := h.later.values hi
  by_cases hnm : n = m
  · subst hnm
    obtain ⟨y, hy, hholdings⟩ := h.after
    obtain rfl := Option.some.inj (hz.symm.trans hy)
    obtain ⟨hserv, hint, -⟩ := Node.eq_of_holdings hholdings
    refine ⟨⟨x, i, h.before, mem_transportsOf.2 ⟨hservers rfl (hserv ▸ hserver), hlive₀⟩,
      hnames rfl i (hint ▸ hk), hi₀⟩, addressOn_congr h.path (h.later.roots t), h.later.kinds t⟩
  · have hsame := h.others n hnm
    obtain ⟨x₀, hx₀, hholdings⟩ := hsame.symm.node? hz
    obtain ⟨hserv, hint, -⟩ := Node.eq_of_holdings hholdings
    exact ⟨⟨x₀, i, hx₀, mem_transportsOf.2 ⟨hserv ▸ hserver, hlive₀⟩, hint ▸ hk, hi₀⟩,
      addressOn_congr hsame.path (h.later.roots t), h.later.kinds t⟩

/-- A node that another one leaves behind shows what it has shown. -/
theorem Destroyed.recedes {p : NodeId} (h : b.Destroyed b' p) (hstays : ¬b.Moves p n)
    (hs : b'.Shows n t k) : b.Recedes b' n t k := by
  obtain ⟨z, i, hz, ht, hk, hi⟩ := hs
  obtain ⟨hserver, hlive⟩ := mem_transportsOf.1 ht
  have hnp : n ≠ p := by
    rintro rfl
    rw [h.gone] at hz
    cases hz
  have hsame : b.SameAt b' n := ⟨h.others n hnp, h.stays n hnp hstays⟩
  obtain ⟨x₀, hx₀, hholdings⟩ := hsame.symm.node? hz
  obtain ⟨hserv, hint, -⟩ := Node.eq_of_holdings hholdings
  exact ⟨⟨x₀, i, hx₀, mem_transportsOf.2 ⟨hserv ▸ hserver, h.later.servers hlive⟩, hint ▸ hk,
    h.later.values hi⟩, addressOn_congr hsame.path (h.later.roots t), h.later.kinds t⟩

theorem InPlace.quiet (h : b.InPlace n t k) (hq : b.Quiet b') (hb : b.Sound) :
    b'.InPlace n t k :=
  h.of_recedes (hq.recedes hb) fun _ _ _ _ hr => (hq.registered t _ k _).2 hr

end Recede

/-! ## Operations that withdraw -/

section Withdrawing

variable {b : Bus} (hb : b.Sound) (hh : b.Held) (levels : Nat) {n : NodeId} {t : TransportId}
  {k : String} (h : b.InPlace n t k)

theorem InPlace.of_same {op : Operation} (h : b.InPlace n t k) (hsame : op.apply levels b = b) :
    (op.apply levels b).InPlace n t k := by rwa [hsame]

/-- A name stays in place unless the operation takes it away. -/
theorem InPlace.of_leaves {op : Operation} (h : b.InPlace n t k) (hleaves : b.Leaves levels op n)
    (hback : (op.apply levels b).Shows n t k → b.Recedes (op.apply levels b) n t k)
    (hunseats : ∀ a, b.TakesAway op t a k → b.Unseats op t a k)
    (hstays : ∀ p, op = .dropNode p → ¬b.Moves p n) (hop : ¬Ousts levels b n t k op) :
    (op.apply levels b).InPlace n t k :=
  h.of_recedes hback fun hafter hbefore a ha hr => (hleaves.registered hr).2 fun htakes =>
    hop (.displaced hbefore hafter ha hstays (hunseats a htakes))

include hb hh h

theorem inPlace_detach (m : NodeId) (name : String)
    (hop : ¬Ousts levels b n t k (.detach m name)) :
    ((Operation.detach m name).apply levels b).InPlace n t k := by
  cases hm : b.node? m with
  | none => exact h.of_same levels (by simp only [Operation.apply, detach, hm])
  | some x =>
      cases hk : Entries.get? name x.interfaces with
      | none => exact h.of_same levels (by simp only [Operation.apply, detach, hm, hk])
      | some i =>
          have hdropped := (detach_spec hb hh (.ofLevels (levels + 1)) hm hk).2
          refine h.of_leaves levels (leaves_detach hb hh levels name)
            (hdropped.node.recedes (fun _ => id) fun _ i hi => ?_) (fun _ => id)
            (fun _ heq => by cases heq) hop
          rw [Node.interfaces_dropName, Entries.get?_drop (hb.table hm)] at hi
          exact Option.ite_none_left_eq_some.1 hi |>.2

theorem inPlace_unbind (m : NodeId) (t₀ : TransportId)
    (hop : ¬Ousts levels b n t k (.unbind m t₀)) :
    ((Operation.unbind m t₀).apply levels b).InPlace n t k := by
  by_cases hlive : b.isLiveServer t₀ = true
  · cases hm : b.node? m with
    | none => exact h.of_same levels (by simp only [Operation.apply, unbind, hm, hlive, if_true])
    | some x =>
        by_cases ht : t₀ ∈ x.servers
        · have hunbound := (unbind_spec hb hh (.ofLevels (levels + 1)) hm hlive ht).2
          have heq : (Operation.unbind m t₀).apply levels b =
              (b.unbind (.ofLevels (levels + 1)) m t₀).2 := by
            simp only [Operation.apply, hlive, if_true]
          rw [← heq] at hunbound
          refine h.of_leaves levels (leaves_unbind hb hh levels t₀)
            (hunbound.node.recedes (fun _ ht => ?_) fun _ _ => id) (fun _ => id)
            (fun _ heq => by cases heq) hop
          exact (Node.mem_servers_unbindFrom.1 ht).1
        · have hno : x.servers.contains t₀ = false := by simpa using ht
          exact h.of_same levels (by
            simp only [Operation.apply, unbind, hm, hno, hlive, Bool.not_false, if_true])
  · exact h.of_same levels (by simp only [Operation.apply, hlive, Bool.false_eq_true, if_false])

theorem inPlace_manage (m : NodeId) (object : Option ObjectId)
    (hop : ¬Ousts levels b n t k (.manage m object)) :
    ((Operation.manage m object).apply levels b).InPlace n t k := by
  cases hm : b.node? m with
  | none => exact h.of_same levels (by simp only [Operation.apply, manage, hm])
  | some x =>
      have hmanaged := (manage_spec hb hh (.ofLevels (levels + 1)) hm object).2
      exact h.of_leaves levels (leaves_manage hb hh levels object)
        (hmanaged.node.recedes (fun _ => id) fun _ _ => id) (fun _ => id)
        (fun _ heq => by cases heq) hop

omit h in
/-- What is shown after a value was let go was shown before. -/
theorem recedes_releaseInterface {i : InterfaceId} {y : Instance} (hi : b.interface? i = some y)
    (hs : (b.releaseInterface (.ofLevels (levels + 1)) i).Shows n t k) :
    b.Recedes (b.releaseInterface (.ofLevels (levels + 1)) i) n t k := by
  rcases (releaseInterface_spec levels hb hh hi).2 with ⟨m, x, name, hdropped⟩ | hquiet
  · refine hdropped.node.recedes (fun _ => id) (fun _ i hi => ?_) hs
    rw [Node.interfaces_dropName, Entries.get?_drop (hb.table hdropped.node.before)] at hi
    exact Option.ite_none_left_eq_some.1 hi |>.2
  · exact hquiet.recedes hb hs

theorem inPlace_dropInterface (i : InterfaceId)
    (hop : ¬Ousts levels b n t k (.dropInterface i)) :
    ((Operation.dropInterface i).apply levels b).InPlace n t k := by
  by_cases hlive : b.isLiveInterface i = true
  · obtain ⟨y, hy, -⟩ := exists_of_isLiveInterface hlive
    have heq : (Operation.dropInterface i).apply levels b =
        b.releaseInterface (.ofLevels (levels + 1)) i := by
      simp only [Operation.apply, hlive, if_true]
    refine h.of_leaves levels (leaves_dropInterface hb hh levels hy) (fun hs => ?_) (fun _ => id)
      (fun _ heq => by cases heq) hop
    rw [heq] at hs ⊢
    exact recedes_releaseInterface hb hh levels hy hs
  · exact h.of_same levels (by simp only [Operation.apply, hlive, Bool.false_eq_true, if_false])

end Withdrawing

/-! ## Attaching -/

section Attaching

variable {b : Bus} (hb : b.Sound) (hh : b.Held) (levels : Nat) {n m : NodeId} {t : TransportId}
  {k : String} {i : InterfaceId} {y : Instance} {x : Node}

/-- The calls that a node makes to register a value. -/
def requests (b : Bus) (x : Node) (name : String) : List (TransportId × String) :=
  (b.transportsOf x).map fun t => (t, name)

theorem InPlace.handed (h : b.InPlace n t k) (i : InterfaceId) : (b.handed i).InPlace n t k := by
  intro hs
  refine h ?_
  obtain ⟨z, j, hz, ht, hk, hj⟩ := hs
  exact ⟨z, j, hz, ht, hk, isLiveInterface_handed (b := b) i ▸ hj⟩

include hb

/-- **Asking for a name takes nothing from another node**, but for what was cleared before. -/
theorem registered_requests (h : Host) {c : Bus} {name : String} (hc : b.Cleared c m x name)
    (hm : b.node? m = some x) {a : Address} (hn : b.isLiveNode n = true)
    (hr : b.Registered t a k (some n))
    (hcleared : ¬((Entries.get? name x.interfaces).isSome = true ∧ b.At m t a ∧ k = name)) :
    (c.registerEach h m [] (b.requests x name)).2.Registered t a k (some n) := by
  refine registered_registerEach (hc.sound hb).orderly h (by rw [hc.node? hm]; rfl)
    ((hc.registered t a k _).2 ⟨hr, hcleared⟩) (by rw [hc.isLiveNode, hn]) ?_
  rintro ⟨hmem, -⟩
  cases hmem

include hh

/-- A value that the node refuses at once is let go, and takes away what it believed to have. -/
theorem inPlace_of_refused_at_once (h : b.InPlace n t k) (hi : b.interface? i = some y)
    {e : Failure BusError}
    (he : (b.handed i).attach (.ofLevels (levels + 1)) i m = (.error e, b.handed i))
    (hkept : ∀ a, (b.makeInterface (.ofLevels (levels + 1)) i m).2.Shows n t k → b.Shows n t k →
      b.addressOn n t = some a → ¬b.TakesAway (.dropInterface i) t a k) :
    (b.makeInterface (.ofLevels (levels + 1)) i m).2.InPlace n t k := by
  have hi₁ : (b.handed i).interface? i = some { y with isLoose := false } := by
    rw [interface?_handed, if_pos rfl, hi]
    rfl
  have hlive := isLiveInterface_handed (b := b) i
  rw [makeInterface_of_error (congrArg Prod.fst he), he] at hkept ⊢
  refine (h.handed i).of_recedes (recedes_releaseInterface (hb.handed i) (hh.handed i) levels hi₁)
    fun hafter hbefore a ha hr => ?_
  by_cases hlast : y.handles = 1
  · rcases (releaseInterface_last levels (hb.handed i) (hh.handed i) hi₁ hlast).effect with
      ⟨p, z, name, hclearing, hdropped⟩ | ⟨-, hquiet⟩
    · refine (hdropped.registered t a k _).2 ⟨hr, ?_⟩
      rintro ⟨hat, rfl⟩
      obtain ⟨w, j, hw, ht, hk, hj⟩ := hbefore
      exact hkept a hafter ⟨w, j, hw, ht, hk, hlive ▸ hj⟩ ha
        ⟨⟨y, hi, hlast⟩, p, z, clearing_handed.1 hclearing, hat⟩
    · exact (hquiet.registered t a k _).2 hr
  · exact ((releaseInterface_more levels (hb.handed i) (hh.handed i) hi₁ hlast).2.registered
      t a k _).2 hr

/-- **A value that is accepted** has its name in place, and what other nodes show, or the node under
other names, stays in place. -/
theorem inPlace_of_accepted (h : b.InPlace n t k) (hm : b.node? m = some x)
    {c : Bus} (hc : b.Cleared c m x y.interface.name) (host : Host)
    (hok : (c.registerEach host m [] (b.requests x y.interface.name)).1 = .ok ())
    (hkept : ∀ a, ((c.registerEach host m [] (b.requests x y.interface.name)).2.enter m
        y.interface.name i).Shows n t k → b.Shows n t k → b.addressOn n t = some a →
      ¬((Entries.get? y.interface.name x.interfaces).isSome = true ∧ b.At m t a ∧
        k = y.interface.name)) :
    ((c.registerEach host m [] (b.requests x y.interface.name)).2.enter m
      y.interface.name i).InPlace n t k := by
  have hattached := attached_enter (i := i) hb host hm hh hc hok
  by_cases hnew : n = m ∧ k = y.interface.name
  · -- the new name is registered where it was asked for
    obtain ⟨rfl, rfl⟩ := hnew
    rintro ⟨z, j, hz, ht, -⟩ hl
    obtain ⟨w, hw, hholdings⟩ := hattached.node.after
    obtain rfl := Option.some.inj (hz.symm.trans hw)
    obtain ⟨hservers, -, -⟩ := Node.eq_of_holdings hholdings
    obtain ⟨hserver, hlive⟩ := mem_transportsOf.1 ht
    have ht₀ : t ∈ b.transportsOf x :=
      mem_transportsOf.2 ⟨hservers ▸ hserver, hattached.node.later.servers hlive⟩
    have hl₀ : (b.loopback? t).isSome = true := (hattached.node.later.kinds t).symm.trans hl
    have hlc : (c.loopback? t).isSome = true := (hc.called.loopback?_isSome t).trans hl₀
    have hmem : (t, y.interface.name) ∈ b.requests x y.interface.name := List.mem_map_of_mem ht₀
    obtain ⟨a, ha⟩ := addressOn_of_registerEach (hc.sound hb).orderly host hok hmem hlc
    rw [hc.addressOn] at ha
    exact ⟨a, (addressOn_congr hattached.node.path (hattached.node.later.roots t)).trans ha,
      hattached.complete ((at_iff hm).2 ⟨ht₀, ha⟩) hl₀⟩
  · refine h.of_recedes (hattached.node.recedes (fun _ => id) fun hnm j hj => ?_)
      fun hafter hbefore a ha hr => ?_
    · rwa [Entries.get?_put_of_ne fun hk => hnew ⟨hnm, hk⟩] at hj
    · obtain ⟨z, -, hz, -⟩ := id hbefore
      exact registered_requests hb host hc hm (hh.isLiveNode hz) hr (hkept a hafter hbefore ha)

/-- **A value that a transport refuses** leaves what is shown in place, but for the name that was
cleared for it. -/
theorem inPlace_of_refused (h : b.InPlace n t k) (hi : b.interface? i = some y)
    (ho : y.owner = none) (hm : b.node? m = some x) {c : Bus}
    (hc : b.Cleared c m x y.interface.name) (host : Host)
    (hkept : ∀ a, ((c.registerEach host m [] (b.requests x y.interface.name)).2.releaseInterface
        (.ofLevels (levels + 1)) i).Shows n t k → b.Shows n t k → b.addressOn n t = some a →
      ¬((Entries.get? y.interface.name x.interfaces).isSome = true ∧ b.At m t a ∧
        k = y.interface.name)) :
    ((c.registerEach host m [] (b.requests x y.interface.name)).2.releaseInterface
      (.ofLevels (levels + 1)) i).InPlace n t k := by
  have hcalled := called_registerEach (hc.sound hb).orderly host m y.interface.name
    (b.transportsOf x)
  have hkeeps := fun {a} hn hr hcl =>
    registered_requests (n := n) (t := t) (k := k) (a := a) hb host hc hm hn hr hcl
  unfold requests at hkeeps hkept ⊢
  generalize (c.registerEach host m [] ((b.transportsOf x).map fun t =>
    (t, y.interface.name))).2 = r at *
  have hsound := (hc.sound hb).called hcalled
  have hheld := (hc.held hh).called hcalled
  have hri : r.interface? i = some y := (hcalled.interface? i).trans ((hc.interface? i).trans hi)
  have hnode : b.AtNode r m x (x.dropName y.interface.name) :=
    atNode_of_called hm (shrinks_drop b y.interface.name) (hc.called.trans hcalled)
  have hservers := (releaseInterface_of_loose levels hsound.orderly hri ho).2.1
  refine h.of_recedes (fun hs => ?_) fun hafter hbefore a ha hr => ?_
  · have hlater := recedes_releaseInterface hsound hheld levels hri hs
    have hearlier : b.Recedes r n t k := by
      refine hnode.recedes (fun _ => id) (fun _ j hj => ?_) hlater.shows
      rw [Node.interfaces_dropName, Entries.get?_drop (hb.table hm)] at hj
      exact Option.ite_none_left_eq_some.1 hj |>.2
    exact hearlier.trans hlater
  · obtain ⟨z, -, hz, -⟩ := id hbefore
    exact (registered_congr (loopback?_congr hservers) t a k _).2
      (hkeeps (hh.isLiveNode hz) hr (hkept a hafter hbefore ha))

/-- A value that the node does not refuse at once leaves in place what is shown, but for the name that is
cleared for it. -/
theorem inPlace_of_free (h : b.InPlace n t k) (hi : b.interface? i = some y) (ho : y.owner = none)
    (hm : b.node? m = some x)
    (hfree : (Entries.get? y.interface.name x.interfaces).any b.isLiveInterface = false)
    (hkept : ∀ a, (b.makeInterface (.ofLevels (levels + 1)) i m).2.Shows n t k →
      (b.handed i).Shows n t k → (b.handed i).addressOn n t = some a →
      ¬((Entries.get? y.interface.name x.interfaces).isSome = true ∧
        (b.handed i).At m t a ∧ k = y.interface.name)) :
    (b.makeInterface (.ofLevels (levels + 1)) i m).2.InPlace n t k := by
  have hi₁ : (b.handed i).interface? i = some { y with isLoose := false } := by
    rw [interface?_handed, if_pos rfl, hi]
    rfl
  have hm₁ : (b.handed i).node? m = some x := hm
  have hlive := isLiveInterface_handed (b := b) i
  have hc := cleared_spec (hb.handed i).orderly (.ofLevels (levels + 1)) hm₁ y.interface.name
  have hattach := attach_of_free (hb.handed i).orderly (.ofLevels (levels + 1)) hi₁ ho hm₁
    (hlive ▸ hfree)
  dsimp only at hattach
  rcases enroll_cases (.ofLevels (levels + 1)) i m y.interface.name
    ((b.handed i).transportsOf x)
    ((b.handed i).cleared (.ofLevels (levels + 1)) m x y.interface.name) with
    ⟨hok, henroll⟩ | ⟨e, -, henroll⟩
  · have hmake := makeInterface_of_ok (i := i) (n := m) (b := b)
      (h := .ofLevels (levels + 1)) (by rw [hattach, henroll]; rfl)
    rw [hmake, hattach, henroll] at hkept ⊢
    exact inPlace_of_accepted (hb.handed i) (hh.handed i) (h.handed i) hm₁ hc _ hok hkept
  · have hmake := makeInterface_of_error (i := i) (n := m) (b := b)
      (h := .ofLevels (levels + 1)) (e := .error e) (by rw [hattach, henroll]; rfl)
    rw [hmake, hattach, henroll] at hkept ⊢
    exact inPlace_of_refused (hb.handed i) (hh.handed i) levels (h.handed i) hi₁ ho hm₁ hc _ hkept

theorem inPlace_makeInterface (h : b.InPlace n t k)
    (hop : ¬Ousts levels b n t k (.makeInterface i m)) :
    ((Operation.makeInterface i m).apply levels b).InPlace n t k := by
  by_cases hboth : (b.isLooseInterface i && b.isLiveNode m) = true
  · have heq : (Operation.makeInterface i m).apply levels b =
        (b.makeInterface (.ofLevels (levels + 1)) i m).2 := by
      simp only [Operation.apply, hboth, if_true]
    obtain ⟨hloose, hmlive⟩ := Bool.and_eq_true_iff.1 hboth
    obtain ⟨y, hi⟩ := exists_of_isLoose hloose
    obtain ⟨x, hm, -⟩ := exists_of_isLiveNode hmlive
    -- what is taken away in vain was not taken from a name that is still shown
    have hkept : ∀ a, ((Operation.makeInterface i m).apply levels b).Shows n t k →
        b.Shows n t k → b.addressOn n t = some a → ¬b.Unseats (.makeInterface i m) t a k :=
      fun a hafter hbefore ha hunseats =>
        hop (.displaced hbefore hafter ha (fun _ h => nomatch h) hunseats)
    rw [heq] at hkept ⊢
    have hi₁ : (b.handed i).interface? i = some { y with isLoose := false } := by
      rw [interface?_handed, if_pos rfl, hi]
      rfl
    have hlive := isLiveInterface_handed (b := b) i
    have hatonce : ∀ {e}, (b.handed i).attach (.ofLevels (levels + 1)) i m = (.error e, b.handed i) →
        (b.makeInterface (.ofLevels (levels + 1)) i m).2.InPlace n t k := fun he =>
      inPlace_of_refused_at_once hb hh levels h hi he fun a hafter hbefore ha htakes =>
        hkept a hafter hbefore ha ⟨hloose, hmlive, Or.inl htakes⟩
    cases ho : y.owner with
    | some q => exact hatonce (attach_of_owner (.ofLevels (levels + 1)) hi₁ ho m)
    | none =>
        cases hfree : (Entries.get? y.interface.name x.interfaces).any b.isLiveInterface with
        | true =>
            exact hatonce (attach_of_taken (.ofLevels (levels + 1)) hi₁ ho hm (hlive ▸ hfree))
        | false =>
            refine inPlace_of_free hb hh levels h hi ho hm hfree ?_
            -- a name that leads to nothing is cleared for everybody at the address
            rintro a hafter ⟨z, j, hz, ht, hk, hj⟩ ha ⟨hsome, hat, rfl⟩
            obtain ⟨d, hd⟩ := Option.isSome_iff_exists.1 hsome
            refine hkept a hafter ⟨z, j, hz, ht, hk, hlive ▸ hj⟩ ha
              ⟨hloose, hmlive, Or.inr ⟨⟨hat, x, d, hm, hd⟩, ?_, y, hi, ho, rfl⟩⟩
            rintro ⟨-, x', d', hx', hd', hlive'⟩
            obtain rfl := Option.some.inj (hm.symm.trans hx')
            rw [hd', Option.any_some, hlive'] at hfree
            cases hfree
  · exact h.of_same levels (by simp only [Operation.apply, hboth, Bool.false_eq_true, if_false])

end Attaching

/-! ## Binding -/

section Binding

variable {b : Bus} (hb : b.Sound) (hh : b.Held) (levels : Nat) {n : NodeId} {t : TransportId}
  {k : String}

/-- After calls, nodes show what they have shown. -/
theorem Called.recedes {b' : Bus} (hc : b.Called b') (hs : b'.Shows n t k) :
    b.Recedes b' n t k := by
  obtain ⟨x, i, hx, ht, hk, hi⟩ := hs
  rw [hc.node?] at hx
  rw [hc.transportsOf] at ht
  rw [hc.isLiveInterface] at hi
  exact ⟨⟨x, i, hx, ht, hk, hi⟩, hc.addressOn n t, hc.loopback?_isSome t⟩

include hb hh

/-- A node that was bound has its names in place, and others keep theirs. -/
theorem inPlace_of_bound (h : b.InPlace n t k) {m : NodeId} {x : Node} {t₀ : TransportId}
    {host : Host} (hm : b.node? m = some x) {b' : Bus} (hbound : b.Bound b' m x t₀)
    (hok : (b.registerEach host m [] (b.offersOf x t₀)).1 = .ok ()) : b'.InPlace n t k := by
  by_cases hnew : n = m ∧ t = t₀
  · -- the node asked for the name at the address that it has now
    obtain ⟨rfl, rfl⟩ := hnew
    rintro ⟨z, i, hz, ht, hk, hi⟩ hl
    obtain ⟨w, hw, hholdings⟩ := hbound.node.after
    obtain rfl := Option.some.inj (hz.symm.trans hw)
    obtain ⟨-, hinterfaces, -⟩ := Node.eq_of_holdings hholdings
    have hl₀ : (b.loopback? t).isSome = true := (hbound.node.later.kinds t).symm.trans hl
    have hmem : (t, k) ∈ b.offersOf x t :=
      mem_offersOf.2 ⟨rfl, (name_instancesOf_iff hb hm).2
        ⟨i, hinterfaces ▸ hk, hbound.node.later.values hi⟩⟩
    obtain ⟨a, ha⟩ := addressOn_of_registerEach hb.orderly _ hok hmem hl₀
    have ha' := (addressOn_congr hbound.node.path (hbound.node.later.roots t)).trans ha
    exact ⟨a, ha', hbound.complete ⟨⟨z, hz, ht, ha'⟩, z, i, hz, hk, hi⟩ hl₀⟩
  · refine h.of_recedes (hbound.node.recedes (fun hnm hmem => ?_) fun _ _ => id)
      fun _ hbefore a ha hr => ?_
    · rcases Node.mem_servers_bindTo.1 hmem with hmem | htt
      · exact hmem
      · exact absurd ⟨hnm, htt⟩ hnew
    · obtain ⟨z, -, hz, -⟩ := id hbefore
      exact hbound.keeps hr (hh.isLiveNode hz)

/-- **Binding puts all names of the node in place**, or is refused, and ousts nobody. -/
theorem inPlace_bind (h : b.InPlace n t k) (m : NodeId) (t₀ : TransportId) :
    ((Operation.bind m t₀).apply levels b).InPlace n t k := by
  by_cases hserver : b.isLiveServer t₀ = true
  · cases hm : b.node? m with
    | none => exact h.of_same levels (by simp only [Operation.apply, bind, hm, hserver, if_true])
    | some x =>
        by_cases ht₀ : t₀ ∈ x.servers
        · exact h.of_same levels (by
            simp only [Operation.apply, bind, hm, hserver, List.contains_iff_mem.2 ht₀, if_true])
        · have heq : (Operation.bind m t₀).apply levels b =
              (b.bind (.ofLevels (levels + 1)) m t₀).2 := by
            simp only [Operation.apply, hserver, if_true]
          rw [heq]
          rcases bind_cases hb (.ofLevels (levels + 1)) hm ht₀ with ⟨hok, hbind⟩ | ⟨e, -, hbind⟩
          · have haccepts :=
              accepts_registerEach (.ofLevels (levels + 1)) hb.orderly (hh.isLiveNode hm) hok
            rw [hbind]
            exact inPlace_of_bound hb hh h hm
              (bound_of_accepts hb (.ofLevels (levels + 1)) hm hserver haccepts) hok
          · have hcalled := called_offersOf hb.orderly (.ofLevels (levels + 1)) m x t₀
            rw [hbind]
            refine h.of_recedes hcalled.recedes fun _ hbefore a ha hr => ?_
            obtain ⟨z, -, hz, -⟩ := id hbefore
            refine registered_registerEach hb.orderly _ (by rw [hm]; rfl) hr (hh.isLiveNode hz) ?_
            rintro ⟨hdone, -⟩
            cases hdone
  · exact h.of_same levels (by simp only [Operation.apply, hserver, Bool.false_eq_true, if_false])

end Binding

/-! ## Destroying a node -/

section Destroying

variable {b : Bus} (hb : b.Sound) {p n : NodeId} {x : Node} (hp : b.node? p = some x)
  (hlast : x.handles = 1) (host : Host) {t : TransportId} {k : String}

include hb hp hlast

/-- A node that had an address has one after it was moved: its names are fewer. -/
theorem exists_addressOn_of_moves (hmoves : b.Moves p n) {a : Address}
    (ha : b.addressOn n t = some a) :
    ∃ a', ((b.unheld p).destroyNode host p).addressOn n t = some a' := by
  have hcalled := called_without hb host hp hlast
  obtain ⟨x', hx', hparent⟩ := hmoves.2
  obtain rfl := Option.some.inj (hp.symm.trans hx')
  obtain ⟨q, hq⟩ := Option.isSome_iff_exists.1 hparent
  obtain ⟨below, hold, hnew⟩ := Forest.names_uproot_of_below hb.forest hp hq hmoves.1
  have hroot := (destroyed_spec hb host hp hlast).later.roots t
  rw [addressOn, readAddress_eq_some, addressText, Forest.path_eq_names] at ha
  simp only [addressOn, readAddress_eq_some, addressText, Forest.path_eq_names, hroot,
    hcalled.forest, forest_without]
  refine Address.exists_parse_join (fun name hname => ?_) ⟨a, ha⟩
  rw [hnew, List.mem_filter, List.mem_append] at hname
  rw [hold, List.mem_filter, List.mem_append]
  exact ⟨hname.1.imp_right (List.mem_cons_of_mem _), hname.2⟩

/-- A node that was moved is there when it comes back. -/
theorem isSome_node?_of_moving {m : Relocation}
    (hm : m ∈ (b.unheld p).moving p { x with handles := x.handles - 1 }) :
    (((b.away host p x).uprooted p x).node? m.node).isSome = true := by
  have hup := called_uprooted_away hb host hp hlast
  obtain ⟨y, hy, -⟩ := (mirrors_without hb hp hlast hm).2.called hup
  rw [hy]
  rfl

/-- **When a moved node comes back, its address is left to it**, unless somebody else stays there or
comes there first. -/
theorem cedes_of_not_crowds (hmoves : b.Moves p n) {a : Address} {m : Relocation}
    {front back : List Relocation}
    (hsplit : (b.unheld p).moving p { x with handles := x.handles - 1 } = front ++ m :: back)
    (hlive : b.isLiveNode n = true)
    (hstays : ∀ m k, m ≠ n → m ≠ p → b.isLiveNode m = true → b.Registered t a k (some m) →
      b.Vacates p t a k)
    (hfirst : (∀ k, b.Registered t a k (some n) → b.Vacates p t a k) → ∀ m' ∈ front, ∀ k,
      ¬((b.unheld p).destroyNode host p).Offers m'.node t a k) :
    (front.foldl (fun b m => b.restore host m) ((b.away host p x).uprooted p x)).Cedes t a n := by
  have hpos : 0 < x.handles := by omega
  have hup := called_uprooted_away hb host hp hlast
  have horderly := hup.orderly (hb.without hp).orderly
  have haway : ∀ t a k o, ((b.away host p x).uprooted p x).Registered t a k o ↔
      b.Registered t a k o ∧ ¬b.Vacates p t a k := (away_spec hb host hp hpos).2.1
  have hnp := hmoves.ne hb
  have hlive' : ((b.away host p x).uprooted p x).isLiveNode n = true := by
    rw [hup.isLiveNode, isLiveNode_without hb hp hnp, hlive]
  have hfront := restores_restoreAll horderly host front fun m' hm' =>
    isSome_node?_of_moving hb hp hlast host (hsplit ▸ List.mem_append_left _ hm')
  by_cases hleft : ∀ k, b.Registered t a k (some n) → b.Vacates p t a k
  · -- nothing is left of the node, so nobody may be there
    refine hfront.cedes (fun k' m' hoffer => ?_) fun k' m' hr hm' => ?_
    · obtain ⟨d, hd, hholds, -⟩ := hoffer
      have hcalled := called_without hb host hp hlast
      have hmirror := (mirrors_without hb hp hlast
        (hsplit ▸ List.mem_append_left _ hd)).2.called hcalled
      rw [hup.holds_iff] at hholds
      exact absurd ((hmirror.holds_iff ((hb.without hp).called hcalled)).1
        ((hcalled.holds_iff d t a k').2 hholds)) (hfirst hleft d hd k')
    · by_contra hne
      obtain ⟨hr, hvacates⟩ := (haway t a k' _).1 hr
      have hm'p : m' ≠ p := by
        rintro rfl
        rw [hup.isLiveNode, isLiveNode, forest_without, Forest.isLive,
          Forest.get?_uproot hb.forest hp, if_pos rfl] at hm'
        cases hm'
      rw [hup.isLiveNode, isLiveNode_without hb hp hm'p] at hm'
      exact hvacates (hstays m' k' hne hm'p hm' hr)
  · -- something is left of the node, so the address is its own all the time
    simp only [not_forall] at hleft
    obtain ⟨k₀, hr₀, hvacates⟩ := hleft
    obtain ⟨l, hl, hr₀⟩ := hfront.keeps ((haway t a k₀ _).2 ⟨hr₀, hvacates⟩) hlive'
    rintro k' m' ⟨l', hl', hr'⟩ -
    obtain rfl := Option.some.inj (hl.symm.trans hl')
    exact Option.some.inj (hr'.unique hr₀)

/-- A moved node shows what it has shown. -/
theorem shows_of_destroyed (hnp : n ≠ p) (hs : ((b.unheld p).destroyNode host p).Shows n t k) :
    b.Shows n t k := by
  have hdestroyed := destroyed_spec hb host hp hlast
  obtain ⟨z, i, hz, ht, hk, hi⟩ := hs
  obtain ⟨y, hy, hholdings⟩ :=
    Option.map_eq_some_iff.1 ((hdestroyed.others n hnp).symm.trans (congrArg _ hz))
  obtain ⟨hservers, hinterfaces, -⟩ := Node.eq_of_holdings hholdings
  obtain ⟨hserver, hlive⟩ := mem_transportsOf.1 ht
  exact ⟨y, i, hy, mem_transportsOf.2 ⟨hservers ▸ hserver, hdestroyed.later.servers hlive⟩,
    hinterfaces ▸ hk, hdestroyed.later.values hi⟩

/-- **A moved node gets its name back**, if its address is left to it. -/
theorem registered_of_moving {m : Relocation} {front back : List Relocation} {a : Address}
    (hsplit : (b.unheld p).moving p { x with handles := x.handles - 1 } = front ++ m :: back)
    (hne : m.node ≠ p) (hlive : b.isLiveNode m.node = true)
    (hoffer : ((b.unheld p).destroyNode host p).Offers m.node t a k)
    (hl : (((b.unheld p).destroyNode host p).loopback? t).isSome = true)
    (hcedes : (front.foldl (fun b m => b.restore host m)
      ((b.away host p x).uprooted p x)).Cedes t a m.node) :
    ((b.unheld p).destroyNode host p).Registered t a k (some m.node) := by
  have hup := called_uprooted_away hb host hp hlast
  have hcalled := called_without hb host hp hlast
  have horderly := hup.orderly (hb.without hp).orderly
  have hthere : ∀ m' ∈ front ++ m :: back,
      (((b.away host p x).uprooted p x).node? m'.node).isSome = true := fun m' hm' =>
    isSome_node?_of_moving hb hp hlast host (hsplit ▸ hm')
  have hmirrors := (mirrors_without hb hp hlast (hsplit ▸ (by simp : m ∈ front ++ m :: back))).2
  have hlive' : ((b.away host p x).uprooted p x).isLiveNode m.node = true := by
    rw [hup.isLiveNode, isLiveNode_without hb hp hne, hlive]
  have hholds := ((hmirrors.called hcalled).holds_iff ((hb.without hp).called hcalled)).2 hoffer
  rw [hcalled.holds_iff, ← hup.holds_iff] at hholds
  have hl₁ : (((b.away host p x).uprooted p x).loopback? t).isSome = true := by
    rw [hup.loopback?_isSome, loopback?_congr (transports_without b p x),
      ← (destroyed_spec hb host hp hlast).later.kinds t]
    exact hl
  -- some nodes come back before it, and some after it
  have hfront := restores_restoreAll horderly host front fun m' hm' =>
    hthere m' (List.mem_append_left _ hm')
  rw [destroyNode_unheld hb host hp hlast, hsplit, List.foldl_append, List.foldl_cons]
  generalize front.foldl (fun b m => b.restore host m) ((b.away host p x).uprooted p x) = c
    at hcedes hfront ⊢
  rw [← hfront.called.isLiveNode] at hlive'
  rw [← hfront.called.holds_iff] at hholds
  rw [← hfront.called.loopback?_isSome] at hl₁
  have horderly₁ := hfront.called.orderly horderly
  have hgrants := grants_restore horderly₁ host m (by
    rw [hfront.called.node?]
    exact hthere m (by simp))
  have hgranted := hgrants.granted hholds hlive' hl₁ hcedes
  have hback := restores_restoreAll (hgrants.restores.called.orderly horderly₁) host back
    fun m' hm' => by
      rw [hgrants.restores.called.node?, hfront.called.node?]
      exact hthere m' (List.mem_append_right _ (List.mem_cons_of_mem m hm'))
  exact hback.keeps hgranted (by rw [hgrants.restores.called.isLiveNode, hlive'])

/-- **A moved node has its names in place** at its new address, unless the address is held already. -/
theorem inPlace_of_moves (h : b.InPlace n t k) (hh : b.Held) (hmoves : b.Moves p n)
    (hcrowds : ∀ a, ((b.unheld p).destroyNode host p).Shows n t k →
      ((b.unheld p).destroyNode host p).addressOn n t = some a →
      (∀ m k, m ≠ n → m ≠ p → b.isLiveNode m = true → b.Registered t a k (some m) →
        b.Vacates p t a k) ∧
      ((∀ k, b.Registered t a k (some n) → b.Vacates p t a k) → ∀ front back d k,
        b.movers p = front ++ n :: back → d ∈ front →
        ¬((b.unheld p).destroyNode host p).Offers d t a k)) :
    ((b.unheld p).destroyNode host p).InPlace n t k := by
  have hpos : 0 < x.handles := by omega
  have hnp := hmoves.ne hb
  intro hs hl
  -- the node has shown the name before, so it had an address, and has one now
  have hbefore := shows_of_destroyed hb hp hlast host hnp hs
  obtain ⟨a₀, ha₀, -⟩ :=
    h hbefore (((destroyed_spec hb host hp hlast).later.kinds t).symm.trans hl)
  obtain ⟨a, ha⟩ := exists_addressOn_of_moves hb hp hlast host hmoves ha₀
  have hoffer : ((b.unheld p).destroyNode host p).Offers n t a k := by
    obtain ⟨z, i, hz, ht, hk, hi⟩ := id hs
    exact ⟨⟨z, hz, ht, ha⟩, z, i, hz, hk, hi⟩
  obtain ⟨hstays, hfirst⟩ := hcrowds a hs ha
  refine ⟨a, ha, ?_⟩
  -- the node comes back after some of the others
  obtain ⟨m, hm, rfl⟩ := exists_mem_moving hb hp hpos hmoves
  obtain ⟨front, back, hsplit⟩ := List.append_of_mem hm
  have hmovers : b.movers p = front.map (·.node) ++ m.node :: back.map (·.node) := by
    rw [← map_node_moving hb hp hpos, hsplit, List.map_append, List.map_cons]
  have hlive : b.isLiveNode m.node = true := by
    obtain ⟨y, -, hy, -⟩ := hbefore
    exact hh.isLiveNode hy
  have hcedes := cedes_of_not_crowds hb hp hlast host hmoves hsplit hlive hstays
    fun hleft m' hm' k => hfirst hleft _ _ m'.node k hmovers (List.mem_map_of_mem hm')
  exact registered_of_moving hb hp hlast host hsplit hnp hlive hoffer hl hcedes

end Destroying

section DropNode

variable {b : Bus} (hb : b.Sound) (hh : b.Held) (levels : Nat) {n : NodeId} {t : TransportId}
  {k : String}

include hb hh

theorem inPlace_dropNode (h : b.InPlace n t k) (p : NodeId)
    (hop : ¬Ousts levels b n t k (.dropNode p)) :
    ((Operation.dropNode p).apply levels b).InPlace n t k := by
  by_cases hlive : b.isLiveNode p = true
  · obtain ⟨x, hp, -⟩ := exists_of_isLiveNode hlive
    have heq : (Operation.dropNode p).apply levels b =
        b.releaseNode (.ofLevels (levels + 1)) p := by
      simp only [Operation.apply, hlive, if_true]
    by_cases hlast : x.handles = 1
    · rw [releaseNode_of_last levels hp hlast] at heq
      by_cases hmoves : b.Moves p n
      · have hcrowds : ∀ a, ((Operation.dropNode p).apply levels b).Shows n t k →
            ((Operation.dropNode p).apply levels b).addressOn n t = some a →
            ¬b.Crowds levels p n t a := fun a hs ha hcrowds =>
          hop (.crowded ⟨hp, hlast⟩ hmoves hs ha hcrowds)
        unfold Crowds at hcrowds
        rw [heq] at hcrowds ⊢
        refine inPlace_of_moves hb hp hlast _ h hh hmoves fun a hs ha => ⟨?_, ?_⟩
        · intro m k' hne hmp hm hr
          by_contra hvacates
          exact hcrowds a hs ha (Or.inl ⟨m, k', hne, hmp, hm, hr, hvacates⟩)
        · intro hleft front back d k' hmovers hd hoffer
          exact hcrowds a hs ha (Or.inr ⟨hleft, front, back, d, k', hmovers, hd, hoffer⟩)
      · have hdestroyed := destroyed_spec hb (.ofLevels levels) hp hlast
        rw [← heq] at hdestroyed
        refine h.of_recedes (hdestroyed.recedes hmoves) fun hafter hbefore a ha hr => ?_
        have hnp : n ≠ p := by
          rintro rfl
          obtain ⟨z, -, hz, -⟩ := hafter
          rw [hdestroyed.gone] at hz
          cases hz
        obtain ⟨z, -, hz, -⟩ := id hbefore
        refine hdestroyed.keeps hr hnp (hh.isLiveNode hz) fun hvacates => hop ?_
        refine .displaced hbefore hafter ha (fun q hq => ?_) ⟨⟨x, hp, hlast⟩, hvacates⟩
        obtain rfl : p = q := by simpa using hq
        exact hmoves
    · have hquiet := (releaseNode_more hb hh levels hp hlast).2
      rw [heq]
      exact h.quiet hquiet hb
  · exact h.of_same levels (by simp only [Operation.apply, hlive, Bool.false_eq_true, if_false])

end DropNode

/-! ## Runs -/

/-- What transports do among themselves leaves names in place. -/
theorem InPlace.untouched {b b' : Bus} {n : NodeId} {t : TransportId} {k : String}
    (h : b.InPlace n t k) (hu : b.Untouched b') (hb : b.Sound) : b'.InPlace n t k :=
  h.quiet hu.quiet hb

/-- **A name stays in place** by every operation that does not oust it. -/
theorem InPlace.apply {levels : Nat} {b : Bus} {n : NodeId} {t : TransportId} {k : String}
    (h : b.InPlace n t k) (hb : b.Sound) (hh : b.Held) {op : Operation}
    (hop : ¬Ousts levels b n t k op) : (op.apply levels b).InPlace n t k := by
  cases op with
  | dropNode p => exact inPlace_dropNode hb hh levels h p hop
  | makeInterface i m => exact inPlace_makeInterface hb hh levels h hop
  | dropInterface i => exact inPlace_dropInterface hb hh levels h i hop
  | detach m name => exact inPlace_detach hb hh levels h m name hop
  | bind m t₀ => exact inPlace_bind hb hh levels h m t₀
  | unbind m t₀ => exact inPlace_unbind hb hh levels h m t₀ hop
  | manage m object => exact inPlace_manage hb hh levels h m object hop
  | _ => exact h.quiet (quiet_apply hb levels hh trivial) hb

/-- **A name that is in place stays there** in every run in which nobody ousts it. -/
theorem InPlace.of_leadsBy {levels : Nat} {b b' : Bus} {n : NodeId} {t : TransportId} {k : String}
    (h : b.InPlace n t k) (hb : b.Reachable levels)
    (hrun : b.LeadsBy levels (fun b op => ¬Ousts levels b n t k op) b') : b'.InPlace n t k := by
  induction hrun with
  | refl => exact h
  | step op hrun hop ih =>
      obtain ⟨hsound, hheld⟩ := (hrun.reachable hb).sound_held
      exact ih.apply hsound hheld hop
  | elsewhere hrun hu ih => exact ih.untouched hu (hrun.reachable hb).sound_held.1

end ObjectBus.Bus
