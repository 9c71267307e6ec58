import ObjectBus.Proofs.Bus.Registering
import ObjectBus.Proofs.Bus.Destruction
import ObjectBus.Proofs.Share.Registry

/-!
# A bus among others

`Bus.Embeds` puts together what a party alone has in common with the same party among others: its
trees, its interface values and, on the one transport that all of them use, the addresses of its share.
What the party sees of its own things is then the same in both. A call that it makes for a node at an
address of its share (`Share.Covers`) has the same answer in both and keeps them alike.
-/

set_option autoImplicit false

namespace ObjectBus

namespace Share

variable (p : Share)

/-- An interface value under the ids of the share. -/
def value (y : Instance) : Instance := { y with owner := y.owner.map p.nodeId }

/-- A descendant that is moved, under the ids of the share. -/
def relocation (m : Bus.Relocation) : Bus.Relocation :=
  { m with node := p.nodeId m.node, interfaces := m.interfaces.map p.valueId }

/-- Which value is none of the share's. -/
def SparesValue (j : InterfaceId) : Prop := ∀ i, p.valueId i ≠ j

/-- A node whose address on the transport is one of the share's, if it has one. -/
def Covers (c : Bus) (t : TransportId) (n : NodeId) : Prop :=
  ∀ a, c.addressOn n t = some a → p.owns a

/-- **All nodes stand at addresses of the share.** -/
def Houses (c : Bus) (t : TransportId) : Prop := ∀ n a, c.At n t a → p.owns a

variable {p}

theorem Covers.called {c c' : Bus} {t : TransportId} {n : NodeId} (h : p.Covers c t n)
    (hc : c.Called c') : p.Covers c' t n := fun a ha => h a ((hc.addressOn n t).symm.trans ha)

theorem Houses.covers {c : Bus} {t : TransportId} {n : NodeId} {x : Node} (h : p.Houses c t)
    (hn : c.node? n = some x) (ht : t ∈ c.transportsOf x) : p.Covers c t n :=
  fun a ha => h n a ⟨x, hn, ht, ha⟩

end Share

namespace Bus

/-- **What `c` has stands in `b`** as the share says, with `t` as the only transport in use; what others
have is as in `rest`. -/
structure Embeds (p : Share) (t : TransportId) (rest c b : Bus) : Prop where
  alone : c.Orderly
  among : b.Orderly
  forest : Forest.Embeds p rest.forest c.forest b.forest
  values : ∀ i, b.interface? (p.valueId i) = (c.interface? i).map p.value
  others : ∀ j, p.SparesValue j → b.interface? j = rest.interface? j
  bound : ∀ {n x}, c.node? n = some x → ∀ u ∈ x.servers, u = t
  live : c.isLiveServer t = true
  live_among : b.isLiveServer t = true
  loopbacks : ∃ l l' r, c.loopback? t = some l ∧ b.loopback? t = some l' ∧
    rest.loopback? t = some r ∧ Loopback.Embeds p r l l'

namespace Embeds

variable {p : Share} {t : TransportId} {rest c b : Bus} (E : Embeds p t rest c b)

include E

/-! ## What a party sees -/

theorem node? (n : NodeId) : b.node? (p.nodeId n) = (c.node? n).map p.node := E.forest.nodes n

theorem node?_none {n : NodeId} (hn : c.node? n = none) : b.node? (p.nodeId n) = none := by
  rw [E.node?, hn]
  rfl

theorem node?_some {n : NodeId} {x : Node} (hn : c.node? n = some x) :
    b.node? (p.nodeId n) = some (p.node x) := by
  rw [E.node?, hn]
  rfl

theorem interface?_none {i : InterfaceId} (hi : c.interface? i = none) :
    b.interface? (p.valueId i) = none := by
  rw [E.values, hi]
  rfl

theorem interface?_some {i : InterfaceId} {y : Instance} (hi : c.interface? i = some y) :
    b.interface? (p.valueId i) = some (p.value y) := by
  rw [E.values, hi]
  rfl

theorem isLiveNode (n : NodeId) : b.isLiveNode (p.nodeId n) = c.isLiveNode n := E.forest.isLive n

theorem isLiveInterface (i : InterfaceId) :
    b.isLiveInterface (p.valueId i) = c.isLiveInterface i := by
  rw [Bus.isLiveInterface, Bus.isLiveInterface, E.values]
  cases c.interface? i <;> rfl

theorem nameOf (i : InterfaceId) : b.nameOf (p.valueId i) = c.nameOf i := by
  rw [Bus.nameOf, Bus.nameOf, E.values]
  cases c.interface? i <;> rfl

theorem rootOf : b.rootOf t = c.rootOf t := by
  obtain ⟨l, l', r, hl, hl', -, h⟩ := E.loopbacks
  rw [Bus.rootOf, Bus.rootOf, transport?_of_loopback? hl, transport?_of_loopback? hl']
  exact h.root

/-- **Addresses are the same.** -/
theorem addressText (n : NodeId) : b.addressText (p.nodeId n) t = c.addressText n t := by
  rw [Bus.addressText, Bus.addressText, E.rootOf, E.forest.path]

theorem addressOn (n : NodeId) : b.addressOn (p.nodeId n) t = c.addressOn n t := by
  rw [Bus.addressOn, Bus.addressOn, E.addressText]

theorem eq_of_mem_transportsOf {n : NodeId} {x : Node} (hn : c.node? n = some x)
    {u : TransportId} (hu : u ∈ c.transportsOf x) : u = t :=
  E.bound hn u (List.mem_filter.1 hu).1

theorem transportsOf {n : NodeId} {x : Node} (hn : c.node? n = some x) :
    b.transportsOf (p.node x) = c.transportsOf x := by
  refine List.filter_congr fun u hu => ?_
  rw [E.bound hn u hu, E.live, E.live_among]

theorem instancesOf (x : Node) :
    b.instancesOf (p.node x) = (c.instancesOf x).map p.valueId := by
  have hvalues : Entries.values (p.node x).interfaces =
      (Entries.values x.interfaces).map p.valueId := by
    simp [Share.node, Entries.values, Entries.mapValues]
  rw [Bus.instancesOf, Bus.instancesOf, hvalues, List.filter_map]
  exact congrArg (List.map p.valueId) (List.filter_congr fun i _ => E.isLiveInterface i)

theorem snapshot (n : NodeId) : b.snapshot (p.nodeId n) = (c.snapshot n).map p.relocation := by
  rw [Bus.snapshot, Bus.snapshot, E.node?, E.isLiveNode]
  cases hx : c.node? n with
  | none => rfl
  | some x =>
      simp only [Option.map_some, Share.relocation, E.transportsOf hx, E.instancesOf]
      rfl

theorem moving (n : NodeId) (x : Node) :
    b.moving (p.nodeId n) (p.node x) = (c.moving n x).map p.relocation := by
  have hparent : (p.node x).parent.isSome = x.parent.isSome := Option.isSome_map
  rw [Bus.moving, Bus.moving, hparent, E.forest.descendants]
  split
  · rw [List.filterMap_map, List.map_filterMap]
    exact List.filterMap_congr fun m _ => E.snapshot m
  · rfl

/-! ## One call -/

/-- Only the transport was called, in both. -/
theorem of_sets {c' b' : Bus} {m m' : Loopback} (hc : Sets t (.loopback m) c c')
    (hb : Sets t (.loopback m') b b')
    (hm : ∀ r, rest.loopback? t = some r → Loopback.Embeds p r m m') : Embeds p t rest c' b' where
  alone := hc.called.orderly E.alone
  among := hb.called.orderly E.among
  forest := by rw [hc.called.forest, hb.called.forest]; exact E.forest
  values i := by rw [hc.called.interface?, hb.called.interface?, E.values]
  others j hj := by rw [hb.called.interface?, E.others j hj]
  bound hn := E.bound ((hc.called.node? _).symm.trans hn)
  live := by rw [hc.called.isLiveServer, E.live]
  live_among := by rw [hb.called.isLiveServer, E.live_among]
  loopbacks := by
    obtain ⟨-, -, r, -, -, hr, -⟩ := E.loopbacks
    exact ⟨m, m', r, by rw [hc.loopback? rfl, if_pos rfl], by rw [hb.loopback? rfl, if_pos rfl], hr,
      hm r hr⟩

variable (h : Host)

/-- A registration is dropped in both. -/
theorem dropAt {text : String} (htext : ∀ a, readAddress text = some a → p.owns a) (k : String) :
    Embeds p t rest (c.dropAt h t text k) (b.dropAt h t text k) := by
  obtain ⟨l, l', r, hl, hl', hr, hll⟩ := E.loopbacks
  have hc := dropAt_spec E.alone h (transport?_of_loopback? hl) text k
  have hb := dropAt_spec E.among h (transport?_of_loopback? hl') text k
  have hol := E.alone.loopbacks t l hl
  have hol' := E.among.loopbacks t l' hl'
  refine E.of_sets hc hb fun r' hr' => ?_
  rw [hr, Option.some.injEq] at hr'
  subst hr'
  cases ha : readAddress text with
  | none => exact hll
  | some a => exact hll.unregister (htext a ha) hol hol' k

variable {n : NodeId} (hn : p.Covers c t n)

include hn

theorem dropAt_addressText (k : String) :
    Embeds p t rest (c.dropAt h t (c.addressText n t) k)
      (b.dropAt h t (b.addressText (p.nodeId n) t) k) := by
  rw [E.addressText]
  exact E.dropAt h hn k

/-- What a node manages is told in both. -/
theorem callManage (object : Option ObjectId) :
    Embeds p t rest (c.callManage h t n object) (b.callManage h t (p.nodeId n) object) := by
  obtain ⟨l, l', r, hl, hl', hr, hll⟩ := E.loopbacks
  have hc := callManage_spec E.alone h (transport?_of_loopback? hl) n object
  have hb := callManage_spec E.among h (transport?_of_loopback? hl') (p.nodeId n) object
  have hol := E.alone.loopbacks t l hl
  have hol' := E.among.loopbacks t l' hl'
  rw [E.addressText] at hb
  refine E.of_sets hc hb fun r' hr' => ?_
  rw [hr, Option.some.injEq] at hr'
  subst hr'
  cases ha : readAddress (c.addressText n t) with
  | none => exact hll
  | some a => exact hll.setManaged (hn a ha) hol hol' object

/-- **A registration is accepted or refused**, the same in both. -/
theorem callAdd (k : String) :
    (b.callAdd h t (p.nodeId n) k).1 = (c.callAdd h t n k).1 ∧
      Embeds p t rest (c.callAdd h t n k).2 (b.callAdd h t (p.nodeId n) k).2 := by
  obtain ⟨l, l', r, hl, hl', hr, hll⟩ := E.loopbacks
  have ht := transport?_of_loopback? hl
  have ht' := transport?_of_loopback? hl'
  have hnode : ((b.node? (p.nodeId n)).map fun _ => p.nodeId n) =
      ((c.node? n).map fun _ => n).map p.nodeId := by
    rw [E.node?]
    cases c.node? n <;> rfl
  simp only [Bus.callAdd, ht, ht', E.addressText, hnode]
  cases ha : Address.parse (c.addressText n t) with
  | error e => exact ⟨rfl, E⟩
  | ok a =>
      simp only
      rcases hll.register (hn a (readAddress_eq_some.2 ha)) E.isLiveNode
        ((c.node? n).map fun _ => n) k with ⟨e, he, he'⟩ | ⟨m, m', hm, hm', hmm⟩
      · rw [he, he']
        exact ⟨rfl, E⟩
      · rw [hm, hm']
        have hsets : c.Sets t (.loopback m) (c.setLoopback t m) := by
          refine sets_adjustServer ht (Loopback.root_register hm) ?_
          rintro _ _ ⟨⟩ ⟨⟩ ho
          exact Loopback.orderly_register ho hm
        have hsets' : b.Sets t (.loopback m') (b.setLoopback t m') := by
          refine sets_adjustServer ht' (Loopback.root_register hm') ?_
          rintro _ _ ⟨⟩ ⟨⟩ ho
          exact Loopback.orderly_register ho hm'
        refine ⟨rfl, E.of_sets hsets hsets' fun r' hr' => ?_⟩
        rw [hr, Option.some.injEq] at hr'
        exact hr' ▸ hmm

/-! ## Several calls -/

omit hn in
/-- **Call after call**, each of which may look at everything that calls leave alone. -/
theorem foldl {ι κ : Type} {f : Bus → ι → Bus} {g : Bus → κ → Bus} (φ : ι → κ) (xs : List ι)
    (hstep : ∀ x ∈ xs, ∀ c' b', c.Called c' → Embeds p t rest c' b' →
      c'.Called (f c' x) ∧ Embeds p t rest (f c' x) (g b' (φ x))) :
    c.Called (xs.foldl f c) ∧ Embeds p t rest (xs.foldl f c) ((xs.map φ).foldl g b) := by
  induction xs generalizing c b with
  | nil => exact ⟨Called.refl c, E⟩
  | cons x xs ih =>
      obtain ⟨hcalled, hx⟩ := hstep x List.mem_cons_self c b (Called.refl c) E
      obtain ⟨hcalled', hxs⟩ := ih hx fun y hy c' b' hc' =>
        hstep y (List.mem_cons_of_mem x hy) c' b' (hcalled.trans hc')
      exact ⟨hcalled.trans hcalled', hxs⟩

omit hn in
/-- The same on every transport of a list, all of which are the one in use. -/
theorem foldl_transports {f g : Bus → TransportId → Bus} {ts : List TransportId}
    (hts : ∀ u ∈ ts, u = t)
    (hstep : t ∈ ts → ∀ c' b', c.Called c' → Embeds p t rest c' b' →
      c'.Called (f c' t) ∧ Embeds p t rest (f c' t) (g b' t)) :
    c.Called (ts.foldl f c) ∧ Embeds p t rest (ts.foldl f c) (ts.foldl g b) := by
  have hfold := E.foldl (f := f) (g := g) id ts fun u hu c' b' hc' E' => by
    have hut := hts u hu
    subst u
    exact hstep hu c' b' hc' E'
  rwa [List.map_id] at hfold

omit hn in
/-- A name is dropped on transports of the node. -/
theorem foldl_dropOf {ts : List TransportId} (hts : ∀ u ∈ ts, u = t)
    (hn : t ∈ ts → p.Covers c t n) (k : String) :
    Embeds p t rest (ts.foldl (fun c u => c.dropOf h n k u) c)
      (ts.foldl (fun b u => b.dropOf h (p.nodeId n) k u) b) :=
  (E.foldl_transports hts fun ht _ _ hc' E' => ⟨(withdraws_dropAt E'.alone h t _ k).called,
    E'.dropAt_addressText h ((hn ht).called hc') k⟩).2

/-- Names are dropped on the transport. -/
theorem dropEach {cs : List (TransportId × String)} (hcs : ∀ e ∈ cs, e.1 = t) :
    Embeds p t rest (c.dropEach h n cs) (b.dropEach h (p.nodeId n) cs) := by
  have hfold := (E.foldl (f := fun c e => c.dropAt h e.1 (c.addressText n e.1) e.2)
    (g := fun b e => b.dropAt h e.1 (b.addressText (p.nodeId n) e.1) e.2) id cs
    fun e he c' b' hc' E' => by
      have het := hcs e he
      simp only [id_eq, het]
      exact ⟨(withdraws_dropAt E'.alone h t _ e.2).called,
        E'.dropAt_addressText h (hn.called hc') e.2⟩).2
  rwa [List.map_id] at hfold

/-- **Registering in turn, or not at all**, with the same answer. -/
theorem registerEach {cs done : List (TransportId × String)} (hcs : ∀ e ∈ cs, e.1 = t)
    (hdone : ∀ e ∈ done, e.1 = t) :
    (b.registerEach h (p.nodeId n) done cs).1 = (c.registerEach h n done cs).1 ∧
      Embeds p t rest (c.registerEach h n done cs).2 (b.registerEach h (p.nodeId n) done cs).2 := by
  induction cs generalizing c b done with
  | nil => exact ⟨rfl, E⟩
  | cons e cs ih =>
      obtain ⟨u, k⟩ := e
      have hut : u = t := hcs (u, k) List.mem_cons_self
      subst u
      have hcalled := called_callAdd E.alone h t n k
      obtain ⟨hanswer, E'⟩ := E.callAdd h hn k
      rw [Bus.registerEach, Bus.registerEach]
      cases hc : c.callAdd h t n k with
      | mk answer c' =>
          cases hb : b.callAdd h t (p.nodeId n) k with
          | mk answer' b' =>
              rw [hc] at hcalled
              rw [hc, hb] at hanswer E'
              cases hanswer
              cases answer with
              | error e => exact ⟨rfl, E'.dropEach h (hn.called hcalled) hdone⟩
              | ok _ =>
                  refine ih E' (hn.called hcalled)
                    (fun e he => hcs e (List.mem_cons_of_mem _ he)) fun e he => ?_
                  rcases List.mem_cons.1 he with rfl | he
                  · rfl
                  · exact hdone e he

/-! ## Leaving and coming back -/

omit hn in
/-- Names are dropped at one address. -/
theorem foldl_dropAt {text : String} (htext : ∀ a, readAddress text = some a → p.owns a)
    (names : List String) :
    c.Called (names.foldl (fun c k => c.dropAt h t text k) c) ∧
      Embeds p t rest (names.foldl (fun c k => c.dropAt h t text k) c)
        (names.foldl (fun b k => b.dropAt h t text k) b) := by
  have hfold := E.foldl (f := fun c k => c.dropAt h t text k)
    (g := fun b k => b.dropAt h t text k) id names fun k _ c' b' _ E' =>
      ⟨(withdraws_dropAt E'.alone h t text k).called, E'.dropAt h htext k⟩
  rwa [List.map_id] at hfold

/-- A node may tell the transport of its object, or of none. -/
theorem told (tells : Bool) (object : Option ObjectId) :
    c.Called (if tells then c.callManage h t n object else c) ∧
      Embeds p t rest (if tells then c.callManage h t n object else c)
        (if tells then b.callManage h t (p.nodeId n) object else b) := by
  cases tells with
  | true => exact ⟨called_callManage E.alone h t n object, E.callManage h hn object⟩
  | false => exact ⟨Called.refl c, E⟩

/-- A destroyed node leaves the transport. -/
theorem leave (names : List String) (managing : Bool) :
    c.Called (c.leave h n names managing t) ∧
      Embeds p t rest (c.leave h n names managing t)
        (b.leave h (p.nodeId n) names managing t) := by
  obtain ⟨hdrop, Edrop⟩ := E.foldl_dropAt h hn names
  obtain ⟨htell, Etell⟩ := Edrop.told h (hn.called hdrop) managing none
  simp only [Bus.leave, E.addressText]
  exact ⟨hdrop.trans htell, Etell⟩

omit hn in
theorem foldl_leave {ts : List TransportId} (hts : ∀ u ∈ ts, u = t)
    (hn : t ∈ ts → p.Covers c t n) (names : List String) (managing : Bool) :
    c.Called (ts.foldl (fun c u => c.leave h n names managing u) c) ∧
      Embeds p t rest (ts.foldl (fun c u => c.leave h n names managing u) c)
        (ts.foldl (fun b u => b.leave h (p.nodeId n) names managing u) b) :=
  E.foldl_transports hts fun ht _ _ hc' E' => E'.leave h ((hn ht).called hc') names managing

omit hn in
/-- A node tells its transports of its object, or of none. -/
theorem foldl_callManage {ts : List TransportId} (hts : ∀ u ∈ ts, u = t)
    (hn : t ∈ ts → p.Covers c t n) (object : Option ObjectId) :
    Embeds p t rest (ts.foldl (fun c u => c.callManage h u n object) c)
      (ts.foldl (fun b u => b.callManage h u (p.nodeId n) object) b) :=
  (E.foldl_transports hts fun ht _ _ hc' E' => ⟨called_callManage E'.alone h t n object,
    E'.callManage h ((hn ht).called hc') object⟩).2

omit hn

variable {m : Relocation}

section OneTransport

variable (hm : p.Covers c t m.node)

include hm

/-- A descendant leaves its address on the transport. -/
theorem withdrawOn :
    c.Called (c.withdrawOn h m t) ∧
      Embeds p t rest (c.withdrawOn h m t) (b.withdrawOn h (p.relocation m) t) := by
  obtain ⟨hdrop, Edrop⟩ := E.foldl
    (f := fun c' i => c'.dropAt h t (c.addressText m.node t) (c'.nameOf i))
    (g := fun b' i => b'.dropAt h t (c.addressText m.node t) (b'.nameOf i)) p.valueId
    m.interfaces fun i _ c' b' _ E' => by
      rw [E'.nameOf]
      exact ⟨(withdraws_dropAt E'.alone h t _ _).called, E'.dropAt h hm _⟩
  obtain ⟨htell, Etell⟩ := Edrop.told h (hm.called hdrop) m.managing.isSome none
  simp only [Bus.withdrawOn, Share.relocation, E.addressText]
  exact ⟨hdrop.trans htell, Etell⟩

/-- A descendant comes to its address on the transport. -/
theorem restoreOn :
    c.Called (c.restoreOn h m t) ∧
      Embeds p t rest (c.restoreOn h m t) (b.restoreOn h (p.relocation m) t) := by
  obtain ⟨hadd, Eadd⟩ := E.foldl
    (f := fun c' i => (c'.callAdd h t m.node (c'.nameOf i)).2)
    (g := fun b' i => (b'.callAdd h t (p.nodeId m.node) (b'.nameOf i)).2) p.valueId
    m.interfaces fun i _ c' b' hc' E' => by
      rw [E'.nameOf]
      exact ⟨called_callAdd E'.alone h t _ _, (E'.callAdd h (hm.called hc') _).2⟩
  obtain ⟨htell, Etell⟩ := Eadd.told h (hm.called hadd) m.managing.isSome m.managing
  simp only [Bus.restoreOn, Share.relocation]
  exact ⟨hadd.trans htell, Etell⟩

end OneTransport

variable (hts : ∀ u ∈ m.servers, u = t) (hm : t ∈ m.servers → p.Covers c t m.node)

include hts hm

/-- **A descendant leaves its address.** -/
theorem withdraw :
    c.Called (c.withdraw h m) ∧
      Embeds p t rest (c.withdraw h m) (b.withdraw h (p.relocation m)) :=
  E.foldl_transports hts fun ht _ _ hc' E' => E'.withdrawOn h ((hm ht).called hc')

/-- **A descendant comes to its address.** -/
theorem restore :
    c.Called (c.restore h m) ∧
      Embeds p t rest (c.restore h m) (b.restore h (p.relocation m)) :=
  E.foldl_transports hts fun ht _ _ hc' E' => E'.restoreOn h ((hm ht).called hc')

end Embeds

end Bus

end ObjectBus
