import Mathlib.Data.List.Nodup
import ObjectBus.Bus.Bind
import ObjectBus.Proofs.Effect.Attach

/-!
# Effects on single nodes

Binding a node to a transport, unbinding it, and managing an object. Unbinding drops every name that
the node has; binding registers those that lead to a live value.
-/

set_option autoImplicit false

namespace ObjectBus.Bus

/-! ## The live names of a node -/

theorem nameOf_eq {b : Bus} {i : InterfaceId} {y : Instance} (hi : b.interface? i = some y) :
    b.nameOf i = y.interface.name := by
  rw [nameOf, hi]

/-- The live values of a node have its names. -/
theorem name_instancesOf_iff {b : Bus} (hb : b.Sound) {n : NodeId} {x : Node}
    (hn : b.node? n = some x) {k : String} :
    (∃ i ∈ b.instancesOf x, b.nameOf i = k) ↔
      ∃ i, Entries.get? k x.interfaces = some i ∧ b.isLiveInterface i = true := by
  constructor
  · rintro ⟨i, hi, rfl⟩
    obtain ⟨hmem, hlive⟩ := List.mem_filter.1 hi
    obtain ⟨k, hk⟩ := (Entries.mem_values_iff (hb.table hn)).1 hmem
    obtain ⟨y, hy, -⟩ := exists_of_isLiveInterface hlive
    rw [nameOf_eq hy, (hb.entry hn hk hy).1]
    exact ⟨i, hk, hlive⟩
  · rintro ⟨i, hk, hlive⟩
    obtain ⟨y, hy, -⟩ := exists_of_isLiveInterface hlive
    refine ⟨i, List.mem_filter.2 ⟨(Entries.mem_values_iff (hb.table hn)).2 ⟨k, hk⟩, hlive⟩, ?_⟩
    rw [nameOf_eq hy, (hb.entry hn hk hy).1]

theorem names_iff {b : Bus} {n : NodeId} {x : Node} (hn : b.node? n = some x) {t : TransportId}
    {a : Address} {k : String} :
    b.Names n t a k ↔ b.At n t a ∧ k ∈ Entries.keys x.interfaces := by
  rw [Names, Entries.mem_keys_iff]
  simp [hn]

theorem offers_iff {b : Bus} (hb : b.Sound) {n : NodeId} {x : Node} (hn : b.node? n = some x)
    {t : TransportId} {a : Address} {k : String} :
    b.Offers n t a k ↔ b.At n t a ∧ ∃ i ∈ b.instancesOf x, b.nameOf i = k := by
  rw [Offers, name_instancesOf_iff hb hn]
  simp [hn]

theorem presents_iff {b : Bus} {n : NodeId} {x : Node} (hn : b.node? n = some x) {t : TransportId}
    {a : Address} {o : ObjectId} :
    b.Presents n t a o ↔ b.At n t a ∧ x.managing = some o := by
  simp [Presents, hn]

/-! ## A node that lets go of something -/

/-- What a node may do without a word about interface values. -/
theorem Keeps.adjustNode {b : Bus} (hb : b.Sound) (hh : b.Held) (n : NodeId)
    {change : Node → Node} (hc : b.Shrinks change) (hhandles : IgnoresHandles change)
    (hnames : ∀ x, (change x).interfaces = x.interfaces) : b.Keeps (b.adjustNode n change) :=
  ⟨hb.adjustNode n hc, hh.adjustNode n change hhandles, fun hf => hf.adjustNode n hnames⟩

/-- A node has changed, and then transports were called. -/
theorem atNode_of_called {b b' : Bus} {n : NodeId} {x : Node} (hn : b.node? n = some x)
    {change : Node → Node} (hc : b.Shrinks change) (hcalled : (b.adjustNode n change).Called b') :
    b.AtNode b' n x (change x) := by
  have hlater : b.Later (b.adjustNode n change) := later_of_values rfl fun _ h => h
  exact atNode_of_adjust hn hcalled.forest hc.place rfl (hlater.trans hcalled.later)

/-! ## Unbinding -/

/-- A node that is unbound leaves the transport. -/
theorem unbind_eq {b : Bus} (h : Host) {n : NodeId} {x : Node} {t₀ : TransportId}
    (hn : b.node? n = some x) (hbound : t₀ ∈ x.servers) :
    (b.unbind h n t₀).2 = [t₀].foldl
      (fun b t => b.leave h n (Entries.keys x.interfaces) x.managing.isSome t)
      (b.adjustNode n (Node.unbindFrom t₀)) := by
  simp only [unbind, leave, hn, List.contains_iff_mem.2 hbound, Bool.not_true,
    Bool.false_eq_true, if_false, List.foldl_cons, List.foldl_nil]
  rfl

/-- **Unbinding** a node that is bound. -/
theorem unbind_spec {b : Bus} (hb : b.Sound) (hh : b.Held) (h : Host) {n : NodeId} {x : Node}
    {t₀ : TransportId} (hn : b.node? n = some x) (hlive : b.isLiveServer t₀ = true)
    (hbound : t₀ ∈ x.servers) :
    b.Keeps (b.unbind h n t₀).2 ∧ b.Unbound (b.unbind h n t₀).2 n x t₀ := by
  have hkeeps := Keeps.adjustNode hb hh n (shrinks_unbind b t₀) (fun _ _ => rfl) fun _ => rfl
  have hw := withdraws_leave hkeeps.sound.orderly h n (Entries.keys x.interfaces)
    x.managing.isSome [t₀]
  rw [← unbind_eq h hn hbound] at hw
  -- the node is unbound first, but its address is the same
  have haddress : ∀ t, (b.adjustNode n (Node.unbindFrom t₀)).addressOn n t = b.addressOn n t :=
    addressOn_adjustNode b n (shrinks_unbind b t₀).place n
  have hat : ∀ {t a}, t ∈ [t₀] ∧ (b.adjustNode n (Node.unbindFrom t₀)).addressOn n t = some a ↔
      t = t₀ ∧ b.At n t a := by
    intro t a
    rw [haddress, List.mem_singleton, at_iff hn]
    constructor
    · rintro ⟨rfl, ha⟩
      exact ⟨rfl, mem_transportsOf.2 ⟨hbound, hlive⟩, ha⟩
    · rintro ⟨rfl, -, ha⟩
      exact ⟨rfl, ha⟩
  refine ⟨hkeeps.called hw.called, atNode_of_called hn (shrinks_unbind b t₀) hw.called,
    fun t a k o => ?_, fun t a o => ?_⟩
  · refine (hw.registered t a k o).trans (and_congr Iff.rfl (not_congr ?_))
    rw [← and_assoc, hat, names_iff hn, and_assoc]
  · refine (hw.managed t a o).trans (and_congr Iff.rfl (not_congr ?_))
    rw [hat]
    simp only [presents_iff hn, Option.isSome_iff_exists, exists_and_left]
    constructor
    · rintro ⟨hm, ht, ha⟩
      exact ⟨ht, ha, hm⟩
    · rintro ⟨ht, ha, hm⟩
      exact ⟨hm, ht, ha⟩

/-! ## Managing -/

theorem called_foldl_callManage {b : Bus} (hb : b.Orderly) (h : Host) (n : NodeId)
    (object : Option ObjectId) (ts : List TransportId) :
    b.Called (ts.foldl (fun b t => b.callManage h t n object) b) := by
  induction ts generalizing b with
  | nil => exact Called.refl b
  | cons u ts ih =>
      have hcalled := called_callManage hb h u n object
      exact hcalled.trans (ih (hcalled.orderly hb))

/-- What is managed at an address after a node has spoken on some transports. -/
theorem managed?_foldl_callManage {b : Bus} (hb : b.Orderly) (h : Host) (n : NodeId)
    (object : Option ObjectId) (ts : List TransportId) (t : TransportId) (a : Address) :
    (ts.foldl (fun b t => b.callManage h t n object) b).managed? t a =
      if t ∈ ts ∧ b.addressOn n t = some a ∧ (b.loopback? t).isSome = true then object
      else b.managed? t a := by
  induction ts generalizing b with
  | nil => simp
  | cons u ts ih =>
      have hcalled := called_callManage hb h u n object
      rw [List.foldl_cons, ih (hcalled.orderly hb), managed?_callManage hb h, hcalled.addressOn,
        hcalled.loopback?_isSome]
      by_cases hmem : t ∈ ts
      · by_cases hat : b.addressOn n t = some a ∧ (b.loopback? t).isSome = true
        · simp [hmem, hat]
        · have hno : ∀ p : Prop, ¬(p ∧ b.addressOn n t = some a ∧ (b.loopback? t).isSome = true) :=
            fun p hp => hat hp.2
          rw [if_neg (hno _), if_neg (hno _), if_neg]
          rintro ⟨rfl, ha, hl⟩
          exact hat ⟨ha, hl⟩
      · by_cases htu : t = u
        · subst htu
          simp [hmem]
        · simp [hmem, htu]

theorem registered_foldl_callManage {b : Bus} (hb : b.Orderly) (h : Host) (n : NodeId)
    (object : Option ObjectId) (ts : List TransportId) (t : TransportId) (a : Address) (k : String)
    (o : Option NodeId) :
    (ts.foldl (fun b t => b.callManage h t n object) b).Registered t a k o ↔
      b.Registered t a k o := by
  induction ts generalizing b with
  | nil => rfl
  | cons u ts ih =>
      rw [List.foldl_cons, ih ((called_callManage hb h u n object).orderly hb),
        registered_callManage hb h]

/-- **Managing** an object, or none. -/
theorem manage_spec {b : Bus} (hb : b.Sound) (hh : b.Held) (h : Host) {n : NodeId} {x : Node}
    (hn : b.node? n = some x) (object : Option ObjectId) :
    b.Keeps (b.manage h n object) ∧ b.Managed (b.manage h n object) n x object := by
  have hkeeps := Keeps.adjustNode hb hh n (shrinks_managing b object) (fun _ _ => rfl) fun _ => rfl
  have horderly := hkeeps.sound.orderly
  have hmanaged := managed?_foldl_callManage horderly h n object (b.transportsOf x)
  have hregistered := registered_foldl_callManage horderly h n object (b.transportsOf x)
  have hcalled := called_foldl_callManage horderly h n object (b.transportsOf x)
  have heq : b.manage h n object =
      (b.transportsOf x).foldl (fun b t => b.callManage h t n object)
        (b.adjustNode n (Node.manage object)) := manage_eq h hb.orderly hn object
  rw [← heq] at hmanaged hregistered hcalled
  have haddress : ∀ t, (b.adjustNode n (Node.manage object)).addressOn n t = b.addressOn n t :=
    addressOn_adjustNode b n (shrinks_managing b object).place n
  refine ⟨hkeeps.called hcalled, atNode_of_called hn (shrinks_managing b object) hcalled,
    hregistered, ?_, ?_⟩
  · intro t a hat hl
    obtain ⟨ht, ha⟩ := (at_iff hn).1 hat
    rw [hmanaged, haddress]
    exact if_pos ⟨ht, ha, hl⟩
  · intro t a hat
    rw [hmanaged, haddress]
    refine if_neg ?_
    rintro ⟨ht, ha, -⟩
    exact hat ((at_iff hn).2 ⟨ht, ha⟩)

/-! ## Binding -/

section Bind

variable {b : Bus} (hb : b.Sound) (hh : b.Held) (h : Host) {n : NodeId} {x : Node}
  {t₀ : TransportId} (hn : b.node? n = some x) (hlive : b.isLiveServer t₀ = true)
  (hfree : t₀ ∉ x.servers)

/-- The registrations that binding a node makes. -/
def offersOf (b : Bus) (x : Node) (t₀ : TransportId) : List (TransportId × String) :=
  (b.instancesOf x).map fun i => (t₀, b.nameOf i)

theorem mem_offersOf {b : Bus} {x : Node} {t₀ t : TransportId} {k : String} :
    (t, k) ∈ b.offersOf x t₀ ↔ t = t₀ ∧ ∃ i ∈ b.instancesOf x, b.nameOf i = k := by
  simp only [offersOf, List.mem_map, Prod.mk.injEq]
  constructor
  · rintro ⟨i, hi, rfl, rfl⟩
    exact ⟨rfl, i, hi, rfl⟩
  · rintro ⟨rfl, i, hi, rfl⟩
    exact ⟨i, hi, rfl, rfl⟩

theorem called_offersOf {b : Bus} (hb : b.Orderly) (h : Host) (n : NodeId) (x : Node)
    (t₀ : TransportId) : b.Called (b.registerEach h n [] (b.offersOf x t₀)).2 := by
  have hcalled := called_registerAllOn h hb n t₀ [] (b.instancesOf x)
  rwa [registerAllOn_eq h n t₀ [] (b.instancesOf x) hb, List.map_nil] at hcalled

/-- No name is registered twice, for a value has the name that leads to it. -/
theorem nodup_offersOf {b : Bus} (hb : b.Sound) {n : NodeId} {x : Node} (hn : b.node? n = some x)
    (t₀ : TransportId) : (b.offersOf x t₀).Nodup := by
  have hnames : (b.offersOf x t₀).map Prod.snd =
      (x.interfaces.filter fun e => b.isLiveInterface e.2).map Prod.fst := by
    rw [offersOf, instancesOf, Entries.values, List.filter_map, List.map_map, List.map_map]
    refine List.map_congr_left fun e he => ?_
    obtain ⟨hmem, hlive⟩ := List.mem_filter.1 he
    obtain ⟨y, hy, -⟩ := exists_of_isLiveInterface hlive
    have hk : Entries.get? e.1 x.interfaces = some e.2 := Entries.get?_of_mem (hb.table hn) hmem
    exact (nameOf_eq hy).trans (hb.entry hn hk hy).1
  refine List.Nodup.of_map Prod.snd ?_
  rw [hnames]
  exact (hb.table hn).nodup.sublist (List.filter_sublist.map Prod.fst)

/-- A node tells a transport what it manages, if it manages something. -/
def told (b : Bus) (h : Host) (n : NodeId) (t : TransportId) (object : Option ObjectId) : Bus :=
  if object.isSome then b.callManage h t n object else b

theorem called_told (hb : b.Orderly) (h : Host) (n : NodeId) (t : TransportId)
    (object : Option ObjectId) : b.Called (b.told h n t object) := by
  unfold told
  split
  · exact called_callManage hb h t n object
  · exact Called.refl b

theorem registered_told (hb : b.Orderly) (h : Host) (n : NodeId) (t₀ : TransportId)
    (object : Option ObjectId) (t : TransportId) (a : Address) (k : String) (o : Option NodeId) :
    (b.told h n t₀ object).Registered t a k o ↔ b.Registered t a k o := by
  unfold told
  split
  · exact registered_callManage hb h t₀ n object t a k o
  · rfl

theorem managed?_told (hb : b.Orderly) (h : Host) (n : NodeId) (t₀ : TransportId)
    (object : Option ObjectId) (t : TransportId) (a : Address) :
    (b.told h n t₀ object).managed? t a =
      if object.isSome = true ∧ t = t₀ ∧ b.addressOn n t₀ = some a ∧
        (b.loopback? t₀).isSome = true then object else b.managed? t a := by
  unfold told
  by_cases hm : object.isSome = true
  · rw [if_pos hm, managed?_callManage hb h]
    simp only [hm, true_and]
  · rw [if_neg hm, if_neg fun hp => hm hp.1]

/-- A node takes a transport. -/
def boundTo (b : Bus) (n : NodeId) (t : TransportId) : Bus :=
  b.adjustNode n (Node.bindTo t)

section BoundTo

variable {c : Bus} (hc : b.Called c)

include hn hc

theorem node?_boundTo :
    (c.boundTo n t₀).node? n = some (x.bindTo t₀) :=
  node?_adjustNode_self ((hc.node? n).trans hn) (Node.bindTo t₀)

include hlive

/-- A node that takes a live transport stands there at its address. -/
theorem at_boundTo {a : Address} : (c.boundTo n t₀).At n t₀ a ↔ b.addressOn n t₀ = some a := by
  have hserver : (c.boundTo n t₀).isLiveServer = b.isLiveServer := hc.isLiveServer
  have hplace : Forest.KeepsPlace (Node.bindTo t₀) := ⟨fun _ => rfl, fun _ => rfl, fun _ => rfl⟩
  have haddress : (c.boundTo n t₀).addressOn n t₀ = b.addressOn n t₀ :=
    (addressOn_adjustNode c n hplace n t₀).trans (hc.addressOn n t₀)
  rw [at_iff (node?_boundTo hn hc), haddress, mem_transportsOf, hserver]
  simp [hlive]

theorem offers_boundTo (hb : b.Sound) {a : Address} {k : String} :
    (c.boundTo n t₀).Offers n t₀ a k ↔
      b.addressOn n t₀ = some a ∧ ∃ i ∈ b.instancesOf x, b.nameOf i = k := by
  have hvalue : (c.boundTo n t₀).isLiveInterface = b.isLiveInterface := hc.isLiveInterface
  rw [Offers, at_boundTo hn hlive hc, name_instancesOf_iff hb hn, hvalue, node?_boundTo hn hc]
  simp only [Option.some.injEq, exists_and_left, exists_eq_left', Node.interfaces_bindTo]

theorem presents_boundTo {a : Address} {o : ObjectId} :
    (c.boundTo n t₀).Presents n t₀ a o ↔ b.addressOn n t₀ = some a ∧ x.managing = some o := by
  rw [presents_iff (node?_boundTo hn hc), at_boundTo hn hlive hc, Node.managing_bindTo]

end BoundTo

include hb hn hfree

theorem bind_cases :
    ((b.registerEach h n [] (b.offersOf x t₀)).1 = .ok () ∧
        b.bind h n t₀ = (.ok (), ((b.registerEach h n [] (b.offersOf x t₀)).2.told h n t₀
          x.managing).boundTo n t₀)) ∨
      ∃ e, (b.registerEach h n [] (b.offersOf x t₀)).1 = .error e ∧
        b.bind h n t₀ = (.error e, (b.registerEach h n [] (b.offersOf x t₀)).2) := by
  rw [bind_eq h hb.orderly hn (by simpa using hfree),
    registerAllOn_eq h n t₀ [] (b.instancesOf x) hb.orderly, List.map_nil]
  have hlist : (b.instancesOf x).map (fun i => (t₀, b.nameOf i)) = b.offersOf x t₀ := rfl
  rw [hlist]
  cases b.registerEach h n [] (b.offersOf x t₀) with
  | mk result b' =>
      cases result with
      | ok u => exact Or.inl ⟨rfl, rfl⟩
      | error e => exact Or.inr ⟨e, rfl, rfl⟩

omit hfree in
/-- A node that was accepted is bound. -/
theorem bound_of_accepts (hlive : b.isLiveServer t₀ = true) {r : Bus}
    (hr : Accepts n (b.offersOf x t₀) b r) :
    b.Bound ((r.told h n t₀ x.managing).boundTo n t₀) n x t₀ := by
  have hro := hr.restores.called.orderly hb.orderly
  have hcalled := hr.restores.called.trans (called_told hro h n t₀ x.managing)
  have hregistered := registered_told hro h n t₀ x.managing
  have hmanaged : ∀ t a, (r.told h n t₀ x.managing).managed? t a =
      if x.managing.isSome = true ∧ t = t₀ ∧ b.addressOn n t₀ = some a ∧
        (b.loopback? t₀).isSome = true then x.managing else b.managed? t a := by
    intro t a
    rw [managed?_told hro h, hr.restores.called.addressOn, hr.restores.called.loopback?_isSome,
      hr.managed]
  generalize r.told h n t₀ x.managing = c at *
  have hlater : b.Later (c.boundTo n t₀) :=
    hcalled.later.trans (later_of_values rfl fun _ h => h)
  -- the call that presents the object comes last and leaves the registrations alone
  refine ⟨hlive, atNode_of_adjust hn (congrArg (fun f : Forest => f.adjust n _) hcalled.forest)
    ⟨fun _ => rfl, fun _ => rfl, fun _ => rfl⟩ rfl hlater, ?_, ?_, ?_, ?_, ?_⟩
  · intro t a k o hreg
    rcases hr.restores.only ((hregistered t a k o).1 hreg) with hreg | ⟨m, rfl, hmem, ha, rfl⟩
    · exact Or.inl hreg
    · obtain ⟨rfl, hi⟩ := mem_offersOf.1 hmem
      exact Or.inr ⟨rfl, (offers_boundTo hn hlive hcalled hb).2 ⟨ha, hi⟩, rfl⟩
  · intro t a k m hreg hm
    exact (hregistered t a k _).2 (hr.restores.keeps hreg hm)
  · intro a k hoffer hl
    obtain ⟨ha, hi⟩ := (offers_boundTo hn hlive hcalled hb).1 hoffer
    exact (hregistered t₀ a k _).2 (hr.complete (mem_offersOf.2 ⟨rfl, hi⟩) ha hl)
  · intro a o hpresent hl
    obtain ⟨ha, ho⟩ := (presents_boundTo hn hlive hcalled).1 hpresent
    refine (hmanaged t₀ a).trans ?_
    rw [if_pos ⟨by rw [ho]; rfl, rfl, ha, hl⟩, ho]
  · -- the transport is told of one address only
    intro t a hno
    refine (hmanaged t a).trans (if_neg ?_)
    rintro ⟨hm, rfl, ha, -⟩
    obtain ⟨o, ho⟩ := Option.isSome_iff_exists.1 hm
    exact hno ⟨rfl, o, (presents_boundTo hn hlive hcalled).2 ⟨ha, ho⟩⟩

include hh hlive

/-- **Binding a node** that is not bound yet: it is bound, or nothing remains. -/
theorem bind_spec :
    b.Keeps (b.bind h n t₀).2 ∧
      (((b.bind h n t₀).1 = .ok () ∧ b.Bound (b.bind h n t₀).2 n x t₀) ∨
        ∃ e, (b.bind h n t₀).1 = .error e ∧ b.Called (b.bind h n t₀).2 ∧
          (b.Tenanted → ∀ t, (b.bind h n t₀).2.transport? t = b.transport? t)) := by
  have hnode := hh.isLiveNode hn
  have hcalled := called_offersOf hb.orderly h n x t₀
  rcases bind_cases hb h hn hfree with ⟨hok, heq⟩ | ⟨e, herr, heq⟩
  · have haccepts := accepts_registerEach h hb.orderly hnode hok
    have hbound := bound_of_accepts hb h hn hlive haccepts
    rw [heq]
    have hcalled' := hcalled.trans (called_told (hcalled.orderly hb.orderly) h n t₀ x.managing)
    have hlt : t₀ < b.next := by
      obtain ⟨s, hs, -⟩ := exists_of_isLiveServer hlive
      exact hb.server_lt hs
    have hkeeps := (Keeps.refl hb hh).called hcalled'
    refine ⟨hkeeps.trans (Keeps.adjustNode hkeeps.sound hkeeps.held n (shrinks_bind ?_)
      (fun _ _ => rfl) fun _ => rfl), Or.inl ⟨rfl, hbound⟩⟩
    rw [hcalled'.next]
    exact hlt
  · rw [heq]
    refine ⟨(Keeps.refl hb hh).called hcalled, Or.inr ⟨e, rfl, hcalled, fun hten t => ?_⟩⟩
    refine transport?_registerEach h hb.orderly hten hnode (fun c hc => ?_) herr t
    obtain ⟨i, -, rfl⟩ := List.mem_map.1 hc
    exact hlive

end Bind

end ObjectBus.Bus
