import Mathlib.Data.List.Infix
import Mathlib.Data.List.Pairwise
import ObjectBus.Proofs.Staleness

/-!
# A registry in sync with the nodes

While no attached value is moved out of its handle, and while all nodes on a transport have
addresses of their own, the transport holds exactly what the nodes have: every name of every node,
and every managed object, at the address where the node is now.

That nothing else is registered follows from what is known about stale registrations: names lead to
live values then, so no destroyed node can strand one (`Bus.Faithful.strandsNothing`). What is left
to prove is that nothing is missing. Each effect takes away and overwrites at addresses only, and at
an address there is one node.
-/

set_option autoImplicit false

namespace ObjectBus.Bus

/-! ## Runs in which attached values stay in their handles -/

/-- **An operation that leaves attached values in their handles.** -/
abbrev LeavesAttached (b : Bus) (op : Operation) : Prop := ¬b.TakesAttached op

/-- In a faithful bus all names lead to live values. -/
theorem Faithful.offers {b : Bus} (hf : b.Faithful) (hh : b.Held) {n : NodeId} {t : TransportId}
    {a : Address} {k : String} (h : b.Names n t a k) : b.Offers n t a k := by
  obtain ⟨hat, x, i, hx, hk⟩ := h
  exact ⟨hat, x, i, hx, hk, hf.isLiveInterface hh hx hk⟩

/-- In a faithful bus no operation strands a registration. -/
theorem Faithful.strandsNothing {b : Bus} (hf : b.Faithful) (hh : b.Held) (hcur : b.Current)
    (levels : Nat) (op : Operation) : StrandsNothing levels b op := by
  rintro n - ⟨-, t, a, k, d, hlive, hmoves, hr, hnot, -⟩
  obtain ⟨m, hm, hnames⟩ := hcur t a k _ hlive hr
  rw [Option.some.injEq] at hm
  subst hm
  exact hnot (Or.inr ⟨d, hmoves, hf.offers hh hnames⟩)

theorem Reaches.faithful_current {levels : Nat} {b : Bus} (hb : b.Reaches levels LeavesAttached) :
    b.Faithful ∧ b.Current := by
  induction hb with
  | empty =>
      refine ⟨faithful_empty, ?_⟩
      rintro t a k o hlive -
      cases hlive
  | step op hb hop ih =>
      obtain ⟨hsound, hheld⟩ := hb.reachable.sound_held
      exact ⟨(proceeds_apply hsound hheld levels op).faithful hop ih.1,
        (current_iff_not_strands hsound hheld ih.2 levels op).2
          (ih.1.strandsNothing hheld ih.2 levels op)⟩
  | elsewhere hb hu ih =>
      exact ⟨hu.faithful ih.1, hu.quiet.current ih.2 hb.reachable.sound_held.1⟩

/-! ## Nodes with addresses of their own -/

/-- **All nodes on a transport have addresses of their own.** A node whose names make no address has
none. -/
def Apart (b : Bus) (t : TransportId) : Prop := ∀ n m a, b.At n t a → b.At m t a → n = m

/-- **Nothing is missing on a transport**: all names are registered, and what is managed is what the
nodes manage. -/
structure InSync (b : Bus) (t : TransportId) : Prop where
  registered : ∀ {n a k}, b.Names n t a k → b.Registered t a k (some n)
  managed : ∀ {a o}, b.managed? t a = some o ↔ ∃ n, b.Presents n t a o

section Move

variable {b b' : Bus} {n : NodeId} {t : TransportId} {a : Address} {k : String} {o : ObjectId}

theorem Presents.exists_node (h : b.Presents n t a o) : ∃ x, b.node? n = some x := h.1.exists_node

theorem SameAt.presents (hsame : b.SameAt b' n) (hlive : b'.isLiveServer t = true)
    (hroot : b'.rootOf t = b.rootOf t) (h : b.Presents n t a o) : b'.Presents n t a o := by
  obtain ⟨hat, x, hx, ho⟩ := h
  obtain ⟨x', hx', hholdings⟩ := hsame.node? hx
  obtain ⟨hservers, -, hmanaging⟩ := Node.eq_of_holdings hholdings
  exact ⟨hat.move hx hx' (fun ht => hservers ▸ ht) hlive hsame.path hroot, x', hx',
    hmanaging.trans ho⟩

theorem SameAt.names_iff (hsame : b.SameAt b' n) (hlive : b.isLiveServer t = true)
    (hlive' : b'.isLiveServer t = true) (hroot : b'.rootOf t = b.rootOf t) :
    b'.Names n t a k ↔ b.Names n t a k :=
  ⟨hsame.symm.names hlive hroot.symm, hsame.names hlive' hroot⟩

theorem SameAt.presents_iff (hsame : b.SameAt b' n) (hlive : b.isLiveServer t = true)
    (hlive' : b'.isLiveServer t = true) (hroot : b'.rootOf t = b.rootOf t) :
    b'.Presents n t a o ↔ b.Presents n t a o :=
  ⟨hsame.symm.presents hlive hroot.symm, hsame.presents hlive' hroot⟩

end Move

/-! ## A change of one node -/

namespace AtNode

variable {b b' : Bus} {n : NodeId} {x x' : Node} (h : b.AtNode b' n x x') {t : TransportId}
  {a : Address} {k : String} {o : ObjectId}

include h

theorem names_before :
    b.Names n t a k ↔ b.At n t a ∧ ∃ i, Entries.get? k x.interfaces = some i := by
  simp [Names, h.before]

theorem names_after : b'.Names n t a k ↔
    b'.At n t a ∧ ∃ i, Entries.get? k x'.interfaces = some i := by
  obtain ⟨y, hy, hholdings⟩ := h.after
  obtain ⟨-, hinterfaces, -⟩ := Node.eq_of_holdings hholdings
  simp [Names, hy, hinterfaces]

theorem presents_after : b'.Presents n t a o ↔ b'.At n t a ∧ x'.managing = some o := by
  obtain ⟨y, hy, hholdings⟩ := h.after
  obtain ⟨-, -, hmanaging⟩ := Node.eq_of_holdings hholdings
  simp [Presents, hy, hmanaging]

variable (hlive : b'.isLiveServer t = true)

include hlive

theorem at_after : b'.At n t a ↔ t ∈ x'.servers ∧ b.addressOn n t = some a := by
  obtain ⟨y, hy, hholdings⟩ := h.after
  obtain ⟨hservers, -, -⟩ := Node.eq_of_holdings hholdings
  rw [Bus.at_iff hy, mem_transportsOf, addressOn_congr h.path (h.later.roots t), hservers]
  simp [hlive]

/-- A node that keeps a transport stands where it stood. -/
theorem at_iff (hservers : t ∈ x'.servers ↔ t ∈ x.servers) : b'.At n t a ↔ b.At n t a := by
  rw [h.at_after hlive, Bus.at_iff h.before, mem_transportsOf, hservers]
  simp [h.later.servers hlive]

variable {m : NodeId} (hm : m ≠ n)

include hm

theorem names_iff : b'.Names m t a k ↔ b.Names m t a k :=
  (h.others m hm).names_iff (h.later.servers hlive) hlive (h.later.roots t)

theorem presents_iff : b'.Presents m t a o ↔ b.Presents m t a o :=
  (h.others m hm).presents_iff (h.later.servers hlive) hlive (h.later.roots t)

end AtNode

/-! ## One effect -/

section Effects

variable {b b' : Bus} {t : TransportId} (hlive : b'.isLiveServer t = true)
  (hsync : b.InSync t) (hapart : b.Apart t)

include hlive hsync

theorem Quiet.inSync (hb : b.Sound) (h : b.Quiet b') : b'.InSync t := by
  -- a node that has something was there before, and so was a transport that it is bound to
  have hold : ∀ {n x'}, b'.node? n = some x' → t ∈ x'.servers →
      (x'.interfaces ≠ [] ∨ x'.managing ≠ none) → b.SameAt b' n ∧ t < b.next := by
    intro n x' hx' ht hsome
    cases hx : b.node? n with
    | none =>
        obtain ⟨hnone, hnone'⟩ := h.new hx hx'
        exact absurd hsome (by simp [hnone, hnone'])
    | some x =>
        obtain ⟨y, hy, hholdings⟩ := (h.old hx).node? hx
        obtain rfl := Option.some.inj (hx'.symm.trans hy)
        exact ⟨h.old hx, hb.bound_lt hx ((Node.eq_of_holdings hholdings).1 ▸ ht)⟩
  refine ⟨fun {n a k} hnames => ?_, fun {a o} => ?_⟩
  · obtain ⟨hat, x', i, hx', hk⟩ := id hnames
    have ht := (mem_transportsOf.1 ((at_iff hx').1 hat).1).1
    obtain ⟨hsame, ht⟩ := hold hx' ht (Or.inl fun hnil => by rw [hnil] at hk; cases hk)
    rw [h.registered]
    exact hsync.registered
      ((hsame.names_iff (h.later.servers ht hlive) hlive (h.later.roots ht)).1 hnames)
  · rw [h.managed, hsync.managed]
    refine exists_congr fun n => ⟨fun hpresents => ?_, fun hpresents => ?_⟩
    · obtain ⟨x, hx⟩ := hpresents.exists_node
      have ht := hb.bound_lt hx (mem_transportsOf.1 ((at_iff hx).1 hpresents.1).1).1
      exact (h.old hx).presents hlive (h.later.roots ht) hpresents
    · obtain ⟨hat, x', hx', ho⟩ := id hpresents
      have ht := (mem_transportsOf.1 ((at_iff hx').1 hat).1).1
      obtain ⟨hsame, ht⟩ := hold hx' ht (Or.inr fun hnone => by rw [hnone] at ho; cases ho)
      exact (hsame.presents_iff (h.later.servers ht hlive) hlive (h.later.roots ht)).1 hpresents

include hapart

theorem Dropped.inSync {n : NodeId} {x : Node} {name : String} (hb : b.Sound)
    (h : b.Dropped b' n x name) : b'.InSync t := by
  have hat : ∀ {a}, b'.At n t a ↔ b.At n t a := h.node.at_iff hlive Iff.rfl
  refine ⟨fun {m a k} hnames => ?_, fun {a o} => ?_⟩
  · rw [h.registered]
    by_cases hm : m = n
    · subst hm
      obtain ⟨hatm, i, hk⟩ := h.node.names_after.1 hnames
      rw [Node.interfaces_dropName, Entries.get?_drop (hb.table h.node.before)] at hk
      split at hk
      · cases hk
      · next hne =>
          exact ⟨hsync.registered (h.node.names_before.2 ⟨hat.1 hatm, i, hk⟩), fun h => hne h.2⟩
    · have hold := (h.node.names_iff hlive hm).1 hnames
      exact ⟨hsync.registered hold, fun hn => hm (hapart m n a hold.1 hn.1)⟩
  · rw [h.managed, hsync.managed]
    refine exists_congr fun m => ?_
    by_cases hm : m = n
    · subst hm
      rw [h.node.presents_after, hat, presents_iff h.node.before, Node.managing_dropName]
    · exact (h.node.presents_iff hlive hm).symm

theorem Unbound.inSync {n : NodeId} {x : Node} {t₀ : TransportId} (h : b.Unbound b' n x t₀) :
    b'.InSync t := by
  have hat : ∀ {a}, b'.At n t a ↔ b.At n t a ∧ t ≠ t₀ := by
    intro a
    rw [h.node.at_after hlive, Bus.at_iff h.node.before, mem_transportsOf]
    simp only [Node.mem_servers_unbindFrom, h.node.later.servers hlive, and_true]
    exact and_right_comm
  refine ⟨fun {m a k} hnames => ?_, fun {a o} => ?_⟩
  · rw [h.registered]
    by_cases hm : m = n
    · subst hm
      obtain ⟨hatm, i, hk⟩ := h.node.names_after.1 hnames
      obtain ⟨hatm, hne⟩ := hat.1 hatm
      exact ⟨hsync.registered (h.node.names_before.2 ⟨hatm, i, hk⟩), fun h => hne h.1⟩
    · have hold := (h.node.names_iff hlive hm).1 hnames
      exact ⟨hsync.registered hold, fun hn => hm (hapart m n a hold.1 hn.2.1)⟩
  · rw [h.managed, hsync.managed]
    constructor
    · rintro ⟨⟨m, hpresents⟩, hstays⟩
      refine ⟨m, ?_⟩
      by_cases hm : m = n
      · subst hm
        have ho := ((presents_iff h.node.before).1 hpresents).2
        exact h.node.presents_after.2
          ⟨hat.2 ⟨hpresents.1, fun ht => hstays ⟨ht, o, hpresents⟩⟩, ho⟩
      · exact (h.node.presents_iff hlive hm).2 hpresents
    · rintro ⟨m, hpresents⟩
      by_cases hm : m = n
      · subst hm
        obtain ⟨hatm, ho⟩ := h.node.presents_after.1 hpresents
        obtain ⟨hatm, hne⟩ := hat.1 hatm
        exact ⟨⟨m, (presents_iff h.node.before).2 ⟨hatm, ho⟩⟩, fun h => hne h.1⟩
      · have hold := (h.node.presents_iff hlive hm).1 hpresents
        refine ⟨⟨m, hold⟩, ?_⟩
        rintro ⟨-, o', hn⟩
        exact hm (hapart m n a hold.1 hn.1)

variable (hloopback : (b'.loopback? t).isSome = true)

include hloopback

theorem Managed.inSync {n : NodeId} {x : Node} {object : Option ObjectId}
    (h : b.Managed b' n x object) : b'.InSync t := by
  have hat : ∀ {a}, b'.At n t a ↔ b.At n t a := h.node.at_iff hlive Iff.rfl
  have hl : (b.loopback? t).isSome = true := (h.node.later.kinds t).symm.trans hloopback
  refine ⟨fun {m a k} hnames => ?_, fun {a o} => ?_⟩
  · rw [h.registered]
    by_cases hm : m = n
    · subst hm
      obtain ⟨hatm, hk⟩ := h.node.names_after.1 hnames
      exact hsync.registered (h.node.names_before.2 ⟨hat.1 hatm, hk⟩)
    · exact hsync.registered ((h.node.names_iff hlive hm).1 hnames)
  · by_cases hn : b.At n t a
    · -- what is managed here is what the node manages, and no other node is here
      rw [h.here hn hl]
      constructor
      · exact fun ho => ⟨n, h.node.presents_after.2 ⟨hat.2 hn, ho⟩⟩
      · rintro ⟨m, hpresents⟩
        by_cases hm : m = n
        · subst hm
          exact (h.node.presents_after.1 hpresents).2
        · have hold := (h.node.presents_iff hlive hm).1 hpresents
          exact absurd (hapart m n a hold.1 hn) hm
    · rw [h.elsewhere hn, hsync.managed]
      refine exists_congr fun m => ?_
      by_cases hm : m = n
      · subst hm
        rw [h.node.presents_after, hat]
        exact ⟨fun hp => absurd hp.1 hn, fun hp => absurd hp.1 hn⟩
      · exact (h.node.presents_iff hlive hm).symm

theorem Attached.inSync {n : NodeId} {x : Node} {name : String} {i : InterfaceId} (hh : b.Held)
    (h : b.Attached b' n x name i) : b'.InSync t := by
  have hat : ∀ {a}, b'.At n t a ↔ b.At n t a := h.node.at_iff hlive Iff.rfl
  have hl : (b.loopback? t).isSome = true := (h.node.later.kinds t).symm.trans hloopback
  refine ⟨fun {m a k} hnames => ?_, fun {a o} => ?_⟩
  · by_cases hm : m = n
    · subst hm
      obtain ⟨hatm, j, hj⟩ := h.node.names_after.1 hnames
      by_cases hk : k = name
      · subst hk
        exact h.complete (hat.1 hatm) hl
      · rw [Entries.get?_put_of_ne hk] at hj
        have hold := h.node.names_before.2 ⟨hat.1 hatm, j, hj⟩
        exact h.keeps (hsync.registered hold) (hold.isLiveNode hh) fun h => hk h.2
    · have hold := (h.node.names_iff hlive hm).1 hnames
      exact h.keeps (hsync.registered hold) (hold.isLiveNode hh)
        fun hn => hm (hapart m n a hold.1 hn.1)
  · rw [h.managed, hsync.managed]
    refine exists_congr fun m => ?_
    by_cases hm : m = n
    · subst hm
      rw [h.node.presents_after, hat, presents_iff h.node.before]
    · exact (h.node.presents_iff hlive hm).symm

omit hapart in
theorem Bound.inSync {n : NodeId} {x : Node} {t₀ : TransportId} (hh : b.Held) (hh' : b'.Held)
    (hf' : b'.Faithful) (hapart' : b'.Apart t) (h : b.Bound b' n x t₀) : b'.InSync t := by
  have hl : (b.loopback? t).isSome = true := (h.node.later.kinds t).symm.trans hloopback
  -- a transport that the node was bound to before
  have hat : ∀ {a}, t ≠ t₀ → (b'.At n t a ↔ b.At n t a) := fun ht =>
    h.node.at_iff hlive (by simp [ht])
  refine ⟨fun {m a k} hnames => ?_, fun {a o} => ?_⟩
  · by_cases hm : m = n
    · subst hm
      by_cases ht : t = t₀
      · subst ht
        exact h.complete (hf'.offers hh' hnames) hl
      · obtain ⟨hatm, hk⟩ := h.node.names_after.1 hnames
        have hold := h.node.names_before.2 ⟨(hat ht).1 hatm, hk⟩
        exact h.keeps (hsync.registered hold) (hold.isLiveNode hh)
    · have hold := (h.node.names_iff hlive hm).1 hnames
      exact h.keeps (hsync.registered hold) (hold.isLiveNode hh)
  · by_cases hn : t = t₀ ∧ ∃ o', b'.Presents n t a o'
    · obtain ⟨rfl, o', ho'⟩ := hn
      rw [h.here ho' hl, Option.some.injEq]
      constructor
      · rintro rfl
        exact ⟨n, ho'⟩
      · rintro ⟨m, hpresents⟩
        obtain rfl := hapart' m n a hpresents.1 ho'.1
        obtain ⟨-, y, hy, ho⟩ := hpresents
        obtain ⟨-, y', hy', ho'⟩ := ho'
        obtain rfl := Option.some.inj (hy.symm.trans hy')
        exact Option.some.inj (ho'.symm.trans ho)
    · rw [h.elsewhere hn, hsync.managed]
      refine exists_congr fun m => ?_
      by_cases hm : m = n
      · subst hm
        by_cases ht : t = t₀
        · subst ht
          refine ⟨fun hp => absurd ⟨rfl, o, ?_⟩ hn, fun hp => absurd ⟨rfl, o, hp⟩ hn⟩
          obtain ⟨hatm, ho⟩ := (presents_iff h.node.before).1 hp
          refine h.node.presents_after.2 ⟨(h.node.at_after hlive).2 ⟨?_, hatm.address⟩, ho⟩
          exact Node.mem_servers_bindTo.2 (Or.inr rfl)
        · rw [h.node.presents_after, hat ht, presents_iff h.node.before, Node.managing_bindTo]
      · exact (h.node.presents_iff hlive hm).symm

end Effects

/-! ## Destroying a node -/

section Destroyed

variable {b b' : Bus} {n : NodeId}

variable {t : TransportId} (hlive : b'.isLiveServer t = true) (h : b.Destroyed b' n)

include hlive h

/-- What a node that was not moved has stays registered. -/
theorem Destroyed.registered_of_stays (hsync : b.InSync t) (hapart : b.Apart t) (hh : b.Held)
    {m : NodeId} (hm : m ≠ n) (hstays : ¬b.Moves n m) {a : Address} {k : String}
    (hnames : b'.Names m t a k) : b'.Registered t a k (some m) := by
  have hsame : b.SameAt b' m := ⟨h.others m hm, h.stays m hm hstays⟩
  have hold := (hsame.names_iff (h.later.servers hlive) hlive (h.later.roots t)).1 hnames
  refine h.keeps (hsync.registered hold) hm (hold.isLiveNode hh) ?_
  rintro (hn | ⟨d, hd, hoffer⟩)
  · exact hm (hapart m n a hold.1 hn.1)
  · obtain rfl := hapart m d a hold.1 hoffer.1
    exact hstays hd

variable (hloopback : (b'.loopback? t).isSome = true) (hapart' : b'.Apart t)

include hloopback hapart'

/-- **What a moved node has is registered at its new address**: nothing is left there by then. -/
theorem Destroyed.registered_of_moves (hh : b.Held) (hh' : b'.Held) (hf : b.Faithful)
    (hf' : b'.Faithful) (hcur : b.Current) {m : NodeId} (hmoves : b.Moves n m) {a : Address}
    {k : String} (hnames : b'.Names m t a k) : b'.Registered t a k (some m) := by
  have hlive₀ := h.later.servers hlive
  obtain ⟨y, hy⟩ := hmoves.1.exists_node
  refine h.complete hmoves (hf'.offers hh' hnames) (hh.isLiveNode hy)
    ((h.later.kinds t).symm.trans hloopback) (fun k' o hr hnot => ?_) fun d k' hd hoffer => ?_
  · -- who has stayed at this address is the moved node
    obtain ⟨e, rfl, he⟩ := hcur t a k' o hlive₀ hr
    have hen : e ≠ n := by
      rintro rfl
      exact hnot (Or.inl he)
    have hstays : ¬b.Moves n e := fun hd => hnot (Or.inr ⟨e, hd, hf.offers hh he⟩)
    have hsame : b.SameAt b' e := ⟨h.others e hen, h.stays e hen hstays⟩
    have he' := (hsame.names_iff hlive₀ hlive (h.later.roots t)).2 he
    rw [hapart' e m a he'.1 hnames.1]
  · exact hapart' d m a hoffer.1 hnames.1

theorem Destroyed.managed_iff (hb : b.Sound) (hsync : b.InSync t) (hapart : b.Apart t)
    {a : Address} {o : ObjectId} :
    b'.managed? t a = some o ↔ ∃ m, b'.Presents m t a o := by
  have hlive₀ := h.later.servers hlive
  have hsame : ∀ {m}, m ≠ n → ¬b.Moves n m → b.SameAt b' m := fun hm hstays =>
    ⟨h.others _ hm, h.stays _ hm hstays⟩
  rw [h.managed ((h.later.kinds t).symm.trans hloopback)]
  cases hlast : ((b.movers n).filter (b'.marks t a)).getLast? with
  | some d =>
      -- a moved node speaks for the address, and no other node is there
      obtain ⟨o', ho'⟩ := marks_iff.1 (List.mem_filter.1 (List.mem_of_getLast? hlast)).2
      refine ⟨fun hp => ⟨d, hp⟩, ?_⟩
      rintro ⟨m, hpresents⟩
      obtain rfl := hapart' m d a hpresents.1 ho'.1
      exact hpresents
  | none =>
      -- no moved node speaks for it, so nobody else has lost it
      have hquiet : ∀ {d o'}, b.Moves n d → ¬b'.Presents d t a o' := by
        intro d o' hd hpresents
        have hmem := List.mem_filter.2 ⟨(mem_movers_iff hb).2 hd, marks_iff.2 ⟨o', hpresents⟩⟩
        rw [List.getLast?_eq_none_iff.1 hlast] at hmem
        cases hmem
      simp only [hsync.managed]
      constructor
      · rintro ⟨⟨m, hpresents⟩, hnot⟩
        have hm : m ≠ n := fun hm => hnot ⟨m, o, Or.inl hm, hpresents⟩
        have hstays : ¬b.Moves n m := fun hd => hnot ⟨m, o, Or.inr hd, hpresents⟩
        exact ⟨m, ((hsame hm hstays).presents_iff hlive₀ hlive (h.later.roots t)).2 hpresents⟩
      · rintro ⟨m, hpresents⟩
        have hm : m ≠ n := by
          rintro rfl
          obtain ⟨y, hy⟩ := hpresents.exists_node
          rw [h.gone] at hy
          cases hy
        have hstays : ¬b.Moves n m := fun hd => hquiet hd hpresents
        have hold :=
          ((hsame hm hstays).presents_iff hlive₀ hlive (h.later.roots t)).1 hpresents
        refine ⟨⟨m, hold⟩, ?_⟩
        rintro ⟨d, o', hd, ho'⟩
        obtain rfl := hapart m d a hold.1 ho'.1
        exact hd.elim hm hstays

theorem Destroyed.inSync (hb : b.Sound) (hsync : b.InSync t) (hapart : b.Apart t) (hh : b.Held)
    (hh' : b'.Held) (hf : b.Faithful) (hf' : b'.Faithful) (hcur : b.Current) : b'.InSync t := by
  refine ⟨fun {m a k} hnames => ?_, h.managed_iff hlive hloopback hapart' hb hsync hapart⟩
  -- the node itself has no names any more
  have hm : m ≠ n := by
    rintro rfl
    obtain ⟨y, hy⟩ := hnames.exists_node
    rw [h.gone] at hy
    cases hy
  by_cases hmoves : b.Moves n m
  · exact h.registered_of_moves hlive hloopback hapart' hh hh' hf hf' hcur hmoves hnames
  · exact h.registered_of_stays hlive hsync hapart hh hm hmoves hnames

end Destroyed

/-! ## Runs -/

/-- **An operation that leaves attached values in their handles**, and all nodes on a transport with
addresses of their own. -/
structure KeepsApart (levels : Nat) (t : TransportId) (b : Bus) (op : Operation) : Prop where
  attached : b.LeavesAttached op
  apart : (op.apply levels b).Apart t

/-- What is true of a transport all along such a run. -/
structure Synchronised (b : Bus) (t : TransportId) : Prop where
  apart : b.Apart t
  inSync : b.isLiveServer t = true → (b.loopback? t).isSome = true → b.InSync t

/-- Nothing is missing on a transport that is not there yet. -/
theorem inSync_of_next_le {b : Bus} (hb : b.Sound) {t : TransportId} (ht : b.next ≤ t) :
    b.InSync t := by
  have hbound : ∀ {n a}, ¬b.At n t a := by
    intro n a hat
    obtain ⟨x, hx⟩ := hat.exists_node
    have hlt := hb.bound_lt hx (mem_transportsOf.1 ((at_iff hx).1 hat).1).1
    exact Nat.lt_irrefl _ (Nat.lt_of_lt_of_le hlt ht)
  have hnone : b.loopback? t = none := by
    rw [loopback?, transport?]
    cases hs : Entries.get? t b.transports with
    | none => rfl
    | some s => exact absurd (hb.server_lt hs) (Nat.not_lt.2 ht)
  refine ⟨fun hnames => absurd hnames.1 hbound, fun {a o} => ?_⟩
  rw [managed?, hnone]
  constructor
  · intro ho
    cases ho
  · rintro ⟨n, hpresents⟩
    exact absurd hpresents.1 hbound

theorem Synchronised.quiet {b b' : Bus} {t : TransportId} (hb : b.Sound) (hsync : b.Synchronised t)
    (h : b.Quiet b') (hlive : b'.isLiveServer t = true)
    (hloopback : (b'.loopback? t).isSome = true) : b'.InSync t := by
  refine h.inSync hlive ?_ hb
  rcases Nat.lt_or_ge t b.next with ht | ht
  · exact hsync.inSync (h.later.servers ht hlive) ((h.later.kinds ht).symm.trans hloopback)
  · exact inSync_of_next_le hb ht

/-- **One operation** keeps a transport in sync. -/
theorem Synchronised.step {levels : Nat} {t : TransportId} {b : Bus} (hb : b.Sound) (hh : b.Held)
    (hf : b.Faithful) (hcur : b.Current) (hsync : b.Synchronised t) {op : Operation}
    (hop : KeepsApart levels t b op) : (op.apply levels b).Synchronised t := by
  have hnext := proceeds_apply hb hh levels op
  have hf' := hnext.faithful hop.attached hf
  refine ⟨hop.apart, fun hlive hloopback => ?_⟩
  -- the transport was there before, but for a quiet operation, which may have made it
  have hsync' : ∀ {c}, b.Later c → c = op.apply levels b → b.InSync t := by
    rintro c hlater rfl
    exact hsync.inSync (hlater.servers hlive) ((hlater.kinds t).symm.trans hloopback)
  rcases hnext.effect fun _ => hcur.tenanted hh with heffect | ⟨n, x, -, -, -, h⟩
  · cases heffect with
    | quiet h => exact hsync.quiet hb h hlive hloopback
    | dropped h => exact h.inSync hlive (hsync' h.node.later rfl) hsync.apart hb
    | unbound h => exact h.inSync hlive (hsync' h.node.later rfl) hsync.apart
    | managed h => exact h.inSync hlive (hsync' h.node.later rfl) hsync.apart hloopback
    | attached h => exact h.inSync hlive (hsync' h.node.later rfl) hsync.apart hloopback hh
    | bound h =>
        exact h.inSync hlive (hsync' h.node.later rfl) hloopback hh hnext.held hf' hop.apart
  · exact h.inSync hlive hloopback hop.apart hb (hsync' h.later rfl) hsync.apart hh hnext.held hf
      hf' hcur

theorem Untouched.apart {b b' : Bus} {t : TransportId} (hu : b.Untouched b') (hb : b.Sound)
    (h : b.Apart t) : b'.Apart t := by
  have hat : ∀ {n a}, b'.At n t a → b.At n t a := by
    intro n a hn
    obtain ⟨x, hx⟩ := hn.exists_node
    have hx₀ : b.node? n = some x := (hu.node? n).symm.trans hx
    have ht := hb.bound_lt hx₀ (mem_transportsOf.1 ((at_iff hx).1 hn).1).1
    exact hn.move hx hx₀ id (hu.quiet.later.servers ht hn.live) (by rw [hu.forest])
      (hu.rootOf t).symm
  exact fun n m a hn hm => h n m a (hat hn) (hat hm)

theorem synchronised_of_reaches {levels : Nat} {t : TransportId} {b : Bus}
    (hb : b.Reaches levels (KeepsApart levels t)) : b.Synchronised t := by
  induction hb with
  | empty =>
      refine ⟨?_, fun hlive => nomatch hlive⟩
      rintro n m a ⟨x, hx, -⟩
      cases hx
  | step op hb hop ih =>
      obtain ⟨hsound, hheld⟩ := hb.reachable.sound_held
      obtain ⟨hf, hcur⟩ := (hb.mono fun _ _ => KeepsApart.attached).faithful_current
      exact ih.step hsound hheld hf hcur hop
  | elsewhere hb hu ih =>
      have hsound := hb.reachable.sound_held.1
      exact ⟨hu.apart hsound ih.apart,
        fun hlive hloopback => ih.quiet hsound hu.quiet hlive hloopback⟩

/-- The addresses of all nodes on a transport. -/
def addressesOn (b : Bus) (t : TransportId) : List Address :=
  b.forest.nodes.filterMap fun e => if t ∈ b.transportsOf e.2 then b.addressOn e.1 t else none

/-- Where a node stands is one of them. -/
theorem At.mem_addressesOn {b : Bus} {n : NodeId} {t : TransportId} {a : Address}
    (h : b.At n t a) : a ∈ b.addressesOn t := by
  obtain ⟨x, hx, ht, ha⟩ := h
  exact List.mem_filterMap.2 ⟨(n, x), Entries.mem_of_get? hx, by rw [if_pos ht, ha]⟩

theorem apart_of_nodup {b : Bus} {t : TransportId} (h : (b.addressesOn t).Nodup) : b.Apart t := by
  have hmem : ∀ {n a}, b.At n t a → ∃ x, (n, x) ∈ b.forest.nodes ∧
      (if t ∈ b.transportsOf x then b.addressOn n t else none) = some a := by
    rintro n a ⟨x, hx, ht, ha⟩
    exact ⟨x, Entries.mem_of_get? hx, by rw [if_pos ht, ha]⟩
  intro n m a hn hm
  obtain ⟨x, hx, hxa⟩ := hmem hn
  obtain ⟨y, hy, hya⟩ := hmem hm
  have hpair := List.pairwise_filterMap.1 h
  have hsymm : Std.Symm fun e e' : NodeId × Node =>
      ∀ c, (if t ∈ b.transportsOf e.2 then b.addressOn e.1 t else none) = some c →
        ∀ c', (if t ∈ b.transportsOf e'.2 then b.addressOn e'.1 t else none) = some c' → c ≠ c' :=
    ⟨fun e e' he c hc c' hc' => (he c' hc' c hc).symm⟩
  by_contra hne
  exact hpair.forall hx hy (fun heq => hne (congrArg Prod.fst heq)) a hxa a hya rfl

/-- A run that moves nothing out, with the addresses compared after each operation. -/
theorem reaches_after_of_apart {levels : Nat} {t : TransportId} {ops : List Operation}
    (hops : ∀ op ∈ ops, ∀ i, op ≠ .takeOut i)
    (h : ∀ front ∈ ops.inits, ((after levels front).addressesOn t).Nodup) :
    (after levels ops).Reaches levels (KeepsApart levels t) := by
  refine reaches_after fun front op hfront => ⟨?_, ?_⟩
  · rintro ⟨i, y, hop, -⟩
    exact hops op (hfront.subset (List.mem_append_right _ List.mem_cons_self)) i hop
  · rw [← after_concat]
    exact apart_of_nodup (h _ ((List.mem_inits _ _).2 hfront))

/-- **A registry in sync.** As long as attached values stay in their handles and all nodes on `t`
have addresses of their own, `t` holds exactly the names of the values that are attached to its nodes, at
the addresses where these are, and exactly the objects that its nodes manage; no address is kept
without a name; and nodes and values agree on what is attached. -/
theorem registry_in_sync {levels : Nat} {t : TransportId} {b : Bus}
    (hb : b.Reaches levels (KeepsApart levels t)) {l : Loopback} (hlive : b.isLiveServer t = true)
    (hl : b.loopback? t = some l) :
    (∀ a k o, l.Registers a k o ↔ ∃ n x i y, o = some n ∧ b.isLiveNode n = true ∧
      b.node? n = some x ∧ t ∈ x.servers ∧ Address.parse (b.addressText n t) = .ok a ∧
      b.interface? i = some y ∧ y.owner = some n ∧ y.interface.name = k) ∧
    (∀ a o, Entries.get? a l.managed = some o ↔ ∃ n x, b.isLiveNode n = true ∧
      b.node? n = some x ∧ t ∈ x.servers ∧ Address.parse (b.addressText n t) = .ok a ∧
      x.managing = some o) ∧
    (∀ a r, l.registry.get? a = some r → ∃ k, l.Registers a k r.node) ∧
    ∀ n x k i, b.node? n = some x → (Entries.get? k x.interfaces = some i ↔
      ∃ y, b.interface? i = some y ∧ y.owner = some n ∧ y.interface.name = k) := by
  obtain ⟨hsound, hheld⟩ := hb.reachable.sound_held
  obtain ⟨hf, hcur⟩ := (hb.mono fun _ _ => KeepsApart.attached).faithful_current
  have hsync := (synchronised_of_reaches hb).inSync hlive (by rw [hl]; rfl)
  -- to stand at an address is to be a live node of the transport with this address
  have hplace : ∀ {n x a}, b.node? n = some x → (b.At n t a ↔ b.isLiveNode n = true ∧
      t ∈ x.servers ∧ Address.parse (b.addressText n t) = .ok a) := by
    intro n x a hx
    rw [at_iff hx, mem_transportsOf, addressOn, readAddress_eq_some]
    simp [hlive, hheld.isLiveNode hx]
  have hattached : ∀ n x k i, b.node? n = some x → (Entries.get? k x.interfaces = some i ↔
      ∃ y, b.interface? i = some y ∧ y.owner = some n ∧ y.interface.name = k) := by
    intro n x k i hx
    rw [← owner?_eq_some, ← hf n k i]
    constructor
    · exact fun hk => ⟨x, hx, hk⟩
    · rintro ⟨x', hx', hk⟩
      obtain rfl := Option.some.inj (hx.symm.trans hx')
      exact hk
  refine ⟨fun a k o => ?_, fun a o => ?_,
    fun a r hr => (hsound.orderly.loopbacks t l hl).exists_registers hr, hattached⟩
  · constructor
    · intro hr
      obtain ⟨n, rfl, hat, x, i, hx, hk⟩ := hcur t a k o hlive ⟨l, hl, hr⟩
      obtain ⟨hn, ht, ha⟩ := (hplace hx).1 hat
      obtain ⟨y, hy⟩ := (hattached n x k i hx).1 hk
      exact ⟨n, x, i, y, rfl, hn, hx, ht, ha, hy⟩
    · rintro ⟨n, x, i, y, rfl, hn, hx, ht, ha, hy⟩
      obtain ⟨l', hl', hr⟩ := hsync.registered
        ⟨(hplace hx).2 ⟨hn, ht, ha⟩, x, i, hx, (hattached n x k i hx).2 ⟨y, hy⟩⟩
      obtain rfl := Option.some.inj (hl.symm.trans hl')
      exact hr
  · have hmanaged : b.managed? t a = Entries.get? a l.managed := by rw [managed?, hl]; rfl
    rw [← hmanaged, hsync.managed]
    constructor
    · rintro ⟨n, hat, x, hx, ho⟩
      obtain ⟨hn, ht, ha⟩ := (hplace hx).1 hat
      exact ⟨n, x, hn, hx, ht, ha, ho⟩
    · rintro ⟨n, x, hn, hx, ht, ha, ho⟩
      exact ⟨n, (hplace hx).2 ⟨hn, ht, ha⟩, x, hx, ho⟩

/-- A root, its child and its grandchild on a transport; the grandchild has a value and manages an
object, and the child is dropped. -/
def lifted : List Operation :=
  [.openLoopback { name := "t", root := "/" }, .makeRoot "r", .bind 0 0, .makeChild 0 "x",
    .makeChild 1 "d", .build { name := "I" }, .makeInterface 1 2, .manage 2 (some 7), .dropNode 1]

/-- The grandchild was moved, and with it what is registered and managed. -/
theorem registry_in_sync_after_lifting :
    ∃ l, (after 0 lifted).loopback? 0 = some l ∧ l.addresses = ["/r/d"] ∧
      l.Registers ⟨["r", "d"]⟩ "I" (some 2) ∧ Entries.get? ⟨["r", "d"]⟩ l.managed = some 7 := by
  have hb : (after 0 lifted).Reaches 0 (KeepsApart 0 0) :=
    reaches_after_of_apart (by simp [lifted]) (by decide +kernel)
  obtain ⟨l, hl⟩ := Option.isSome_iff_exists.1
    (show ((after 0 lifted).loopback? 0).isSome = true by decide +kernel)
  obtain ⟨hregistered, hmanaged, -⟩ := registry_in_sync hb (by decide +kernel) hl
  have hnode : ((after 0 lifted).node? 2).map (fun x => (x.servers, x.managing)) =
      some ([0], some 7) := by decide +kernel
  have hvalue : ((after 0 lifted).interface? 1).map (fun y => (y.owner, y.interface.name)) =
      some (some 2, "I") := by decide +kernel
  have haddresses : ((after 0 lifted).loopback? 0).map (·.addresses) = some ["/r/d"] := by
    decide +kernel
  have hlive : (after 0 lifted).isLiveNode 2 = true := by decide +kernel
  have haddress : Address.parse ((after 0 lifted).addressText 2 0) = .ok ⟨["r", "d"]⟩ :=
    readAddress_eq_some.1 (by decide +kernel)
  obtain ⟨x, hx, heq⟩ := Option.map_eq_some_iff.1 hnode
  obtain ⟨y, hy, heq'⟩ := Option.map_eq_some_iff.1 hvalue
  obtain ⟨hservers, hmanages⟩ := Prod.mk.inj heq
  obtain ⟨howner, hname⟩ := Prod.mk.inj heq'
  have ht : 0 ∈ x.servers := hservers ▸ List.mem_cons_self
  rw [hl] at haddresses
  exact ⟨l, hl, Option.some.inj haddresses,
    (hregistered _ _ _).2 ⟨2, x, 1, y, rfl, hlive, hx, ht, haddress, hy, howner, hname⟩,
    (hmanaged _ _).2 ⟨2, x, hlive, hx, ht, haddress, hmanages⟩⟩

end ObjectBus.Bus
