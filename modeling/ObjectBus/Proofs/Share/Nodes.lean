import ObjectBus.Proofs.Bus.Contest
import ObjectBus.Proofs.Share.Values

/-!
# Nodes among others

Binding, unbinding, managing and destroying nodes of a party: the answers are the same among others as
alone, and the two buses remain alike.

A node that is bound is registered at an address where it does not stand yet, so that the address may
belong to someone else. But the party alone has nothing registered at such an address, and then the
node would have been accepted there (`Share.covers_of_bind`). A destroyed node lets those below it come to
new addresses; there they stand afterwards.
-/

set_option autoImplicit false

namespace ObjectBus

namespace Share

variable {p : Share} {c : Bus} {t : TransportId}

theorem Covers.disowned {n : NodeId} (h : p.Covers c t n) (is : List InterfaceId) :
    p.Covers (c.disowned is) t n := by
  unfold Bus.disowned
  induction is generalizing c with
  | nil => exact h
  | cons i is ih => exact ih h

/-- What is moved stands at an address of the share. -/
theorem Houses.mirrors (h : p.Houses c t) {m : Bus.Relocation} (hm : m.Mirrors c)
    (ht : t ∈ m.servers) : p.Covers c t m.node := by
  obtain ⟨y, hy, hservers, -, -⟩ := hm
  exact h.covers hy (hservers ▸ ht)

end Share

namespace Bus.Embeds

variable {p : Share} {t : TransportId} {rest c b : Bus} (E : Embeds p t rest c b)
  (hown : p.Houses c t) (h : Host)

include E

/-! ## Binding and unbinding -/

theorem offersOf (x : Node) : b.offersOf (p.node x) t = c.offersOf x t := by
  rw [Bus.offersOf, Bus.offersOf, E.instancesOf, List.map_map]
  refine List.map_congr_left fun i _ => ?_
  rw [Function.comp_apply, E.nameOf]

/-- **A node is bound only where the party may be**, if it stands there afterwards when it was
accepted. -/
theorem covers_of_bind (hc : c.Sound) {n : NodeId} {x : Node} (hn : c.node? n = some x)
    (hfree : t ∉ x.servers) (hafter : p.Houses (c.bind h n t).2 t) : p.Covers c t n := by
  obtain ⟨l, l', r, hl, -, -, hll⟩ := E.loopbacks
  intro a ha
  by_contra hforeign
  -- nothing is registered there
  have hnone : ∀ k o, ¬c.Registered t a k o := by
    rintro k o ⟨m, hm, r', hr', -⟩
    rw [hl, Option.some.injEq] at hm
    subst hm
    rw [(hll.within a hforeign).1] at hr'
    cases hr'
  have hok : (c.registerEach h n [] (c.offersOf x t)).1 = .ok () := by
    refine registerEach_ok hc.orderly h (by rw [hn]; rfl) ha (by rw [hl]; rfl) (fun e he => ?_)
      (nodup_offersOf hc hn t) fun e _ k o hr => absurd hr (hnone k o)
    obtain ⟨i, -, rfl⟩ := List.mem_map.1 he
    rfl
  -- so the node is accepted, and stands there
  rcases bind_cases hc h hn hfree with ⟨-, heq⟩ | ⟨e, herr, -⟩
  · have hreg := called_offersOf hc.orderly h n x t
    have hcalled := hreg.trans (called_told (hreg.orderly hc.orderly) h n t x.managing)
    rw [heq] at hafter
    exact hforeign (hafter n a ((at_boundTo hn E.live hcalled).2 ha))
  · rw [hok] at herr
    cases herr

/-- **Binding.** -/
theorem bind (hc : c.Sound) (hb : b.Sound) (n : NodeId) (hafter : p.Houses (c.bind h n t).2 t) :
    (b.bind h (p.nodeId n) t).1 = (c.bind h n t).1 ∧
      Embeds p t rest (c.bind h n t).2 (b.bind h (p.nodeId n) t).2 := by
  cases hn : c.node? n with
  | none =>
      simp only [Bus.bind, hn, E.node?_none hn]
      exact ⟨trivial, E⟩
  | some x =>
      have hn' := E.node?_some hn
      by_cases hbound : t ∈ x.servers
      · have hbound' : t ∈ (p.node x).servers := hbound
        simp only [Bus.bind, hn, hn', List.contains_iff_mem.2 hbound, List.contains_iff_mem.2 hbound',
          if_true]
        exact ⟨trivial, E⟩
      · have hcover := E.covers_of_bind h hc hn hbound hafter
        have hcs : ∀ e ∈ c.offersOf x t, e.1 = t := by
          intro e he
          obtain ⟨i, -, rfl⟩ := List.mem_map.1 he
          rfl
        obtain ⟨hanswer, E'⟩ := E.registerEach h hcover hcs fun e he => absurd he List.not_mem_nil
        have hbound' : t ∉ (p.node x).servers := hbound
        have hcases' := bind_cases hb h hn' hbound'
        rw [E.offersOf] at hcases'
        rcases bind_cases hc h hn hbound with ⟨hok, heq⟩ | ⟨e, herr, heq⟩
        · rcases hcases' with ⟨-, heq'⟩ | ⟨e', herr', -⟩
          · have hreg := called_offersOf hc.orderly h n x t
            obtain ⟨-, E''⟩ := E'.told h (hcover.called hreg) x.managing.isSome x.managing
            have hplace : Forest.KeepsPlace (Node.bindTo t) :=
              ⟨fun _ => rfl, fun _ => rfl, fun _ => rfl⟩
            rw [heq, heq']
            exact ⟨rfl, E''.adjustNode n hplace hplace (fun _ => rfl) fun _ _ hu =>
              Node.mem_servers_bindTo.1 hu⟩
          · rw [hok, herr'] at hanswer
            cases hanswer
        · rcases hcases' with ⟨hok', -⟩ | ⟨e', herr', heq'⟩
          · rw [herr, hok'] at hanswer
            cases hanswer
          · rw [herr, herr'] at hanswer
            cases hanswer
            rw [heq, heq']
            exact ⟨rfl, E'⟩

include hown

/-- **Unbinding.** -/
theorem unbind (n : NodeId) :
    (b.unbind h (p.nodeId n) t).1 = (c.unbind h n t).1 ∧
      Embeds p t rest (c.unbind h n t).2 (b.unbind h (p.nodeId n) t).2 := by
  cases hn : c.node? n with
  | none =>
      simp only [Bus.unbind, hn, E.node?_none hn]
      exact ⟨trivial, E⟩
  | some x =>
      have hn' := E.node?_some hn
      by_cases hbound : t ∈ x.servers
      · have hbound' : t ∈ (p.node x).servers := hbound
        have hplace : Forest.KeepsPlace (Node.unbindFrom t) :=
          ⟨fun _ => rfl, fun _ => rfl, fun _ => rfl⟩
        have hcover := hown.covers hn (mem_transportsOf.2 ⟨hbound, E.live⟩)
        have E' : Embeds p t rest (c.adjustNode n (Node.unbindFrom t))
            (b.adjustNode (p.nodeId n) (Node.unbindFrom t)) :=
          E.adjustNode n hplace hplace (fun _ => rfl) fun _ _ hu =>
            Or.inl (Node.mem_servers_unbindFrom.1 hu).1
        refine ⟨?_, ?_⟩
        · simp only [Bus.unbind, hn, hn', List.contains_iff_mem.2 hbound,
            List.contains_iff_mem.2 hbound', Bool.not_true, Bool.false_eq_true, if_false]
        · rw [unbind_eq h hn hbound, unbind_eq h hn' hbound']
          simp only [List.foldl_cons, List.foldl_nil, p.keys_interfaces]
          exact (E'.leave h (hcover.adjustNode n hplace) _ _).2
      · have hbound' : t ∉ (p.node x).servers := hbound
        simp only [Bus.unbind, hn, hn', List.contains_eq_mem, hbound, hbound', decide_false,
          Bool.not_false, if_true]
        exact ⟨trivial, E⟩

/-- **Managing.** -/
theorem manage (n : NodeId) (object : Option ObjectId) :
    Embeds p t rest (c.manage h n object) (b.manage h (p.nodeId n) object) := by
  cases hn : c.node? n with
  | none =>
      simp only [Bus.manage, hn, E.node?_none hn]
      exact E
  | some x =>
      have hplace : Forest.KeepsPlace (Node.manage object) :=
        ⟨fun _ => rfl, fun _ => rfl, fun _ => rfl⟩
      have E' : Embeds p t rest (c.adjustNode n (Node.manage object))
          (b.adjustNode (p.nodeId n) (Node.manage object)) :=
        E.adjustNode n hplace hplace (fun _ => rfl) fun _ _ hu => Or.inl hu
      rw [manage_eq h E.alone hn, manage_eq h E.among (E.node?_some hn)]
      have hservers : (b.adjustNode (p.nodeId n) (Node.manage object)).transportsOf (p.node x) =
        c.transportsOf x := E.transportsOf hn
      simp only [hservers]
      exact E'.foldl_callManage h (fun u hu => E.eq_of_mem_transportsOf hn hu)
        (fun ht => (hown.covers hn ht).adjustNode n hplace) object

/-! ## Destroying -/

/-- **A destroyed node leaves its addresses**, and so do those below it. -/
theorem away (hc : c.Sound) {n : NodeId} {x : Node} (hn : c.node? n = some x)
    (hpos : 0 < x.handles) :
    Embeds p t rest (c.away h n x) (b.away h (p.nodeId n) (p.node x)) := by
  have hplace : Forest.KeepsPlace fun x : Node => { x with handles := x.handles - 1 } :=
    ⟨fun _ => rfl, fun _ => rfl, fun _ => rfl⟩
  have E₀ : Embeds p t rest (c.unheld n) (b.unheld (p.nodeId n)) :=
    E.adjustHandles n fun k => k - 1
  obtain ⟨hleave, E₁⟩ := E₀.foldl_leave h (fun u hu => E.eq_of_mem_transportsOf hn hu)
    (fun ht => (hown.covers hn ht).adjustNode n hplace) (Entries.keys x.interfaces)
    x.managing.isSome
  have E₂ := E₁.disowned (c.instancesOf x)
  have hmoving : (b.unheld (p.nodeId n)).moving (p.nodeId n)
      { p.node x with handles := x.handles - 1 } =
        ((c.unheld n).moving n { x with handles := x.handles - 1 }).map p.relocation :=
    E₀.moving n { x with handles := x.handles - 1 }
  simp only [Bus.away, E.transportsOf hn, E.instancesOf, p.keys_interfaces]
  refine hmoving ▸ (E₂.foldl p.relocation _ fun m hm c' b' hc' E' => ?_).2
  have hmirror := mirrors_of_mem_moving hc hn hpos hm
  refine E'.withdraw h (fun u hu => ?_) fun ht => ?_
  · obtain ⟨y, hy, hservers, -, -⟩ := hmirror
    exact E.eq_of_mem_transportsOf hy (hservers ▸ hu)
  · exact ((((hown.mirrors hmirror ht).adjustNode n hplace).called hleave).disowned _).called hc'

/-- **Destroying a node.** -/
theorem destroyNode (hc : c.Sound) (hb : b.Sound) {n : NodeId} {x : Node}
    (hn : c.node? n = some x) (hlast : x.handles = 1)
    (hafter : p.Houses ((c.unheld n).destroyNode h n) t) :
    Embeds p t rest ((c.unheld n).destroyNode h n)
      ((b.unheld (p.nodeId n)).destroyNode h (p.nodeId n)) := by
  have hpos : 0 < x.handles := by omega
  have hn' := E.node?_some hn
  have haway : (c.away h n x).node? n = some { x with handles := x.handles - 1 } := by
    rw [(away_spec hc h hn hpos).1.node?, Bus.node?, Bus.disowned, forest_foldl_setOwner]
    exact node?_unheld hn
  have E₁ : Embeds p t rest ((c.away h n x).uprooted n x)
      ((b.away h (p.nodeId n) (p.node x)).uprooted (p.nodeId n) (p.node x)) := by
    have hup := (E.away hown h hc hn hpos).uprooted haway
    exact hup
  have E₀ : Embeds p t rest (c.unheld n) (b.unheld (p.nodeId n)) :=
    E.adjustHandles n fun k => k - 1
  have hmoving : (b.unheld (p.nodeId n)).moving (p.nodeId n)
      { p.node x with handles := x.handles - 1 } =
        ((c.unheld n).moving n { x with handles := x.handles - 1 }).map p.relocation :=
    E₀.moving n { x with handles := x.handles - 1 }
  have hcalled := called_without hc h hn hlast
  have hrestores := (restores_destroyed hc h hn hlast).called
  have heq := destroyNode_unheld hc h hn hlast
  have heq' := destroyNode_unheld hb h hn' hlast
  rw [heq, heq']
  refine hmoving ▸ (E₁.foldl p.relocation _ fun m hm c' b' hc' E' => ?_).2
  have hmirror := (mirrors_without hc hn hlast hm).2.called hcalled
  refine E'.restore h (fun u hu => ?_) fun ht => ?_
  · obtain ⟨y, hy, hservers, -, -⟩ := mirrors_of_mem_moving hc hn hpos hm
    exact E.eq_of_mem_transportsOf hy (hservers ▸ hu)
  · -- where it comes to is where it stands in the end
    have hcover := hafter.mirrors hmirror ht
    exact Share.Covers.called (fun a ha => hcover a ((hrestores.addressOn _ _).trans ha)) hc'

/-- **A handle of a node is let go**, and with the last one the node. -/
theorem releaseNode (hc : c.Sound) (hb : b.Sound) (hheld : c.Held) (hheld' : b.Held) (levels : Nat)
    {n : NodeId} {x : Node} (hn : c.node? n = some x)
    (hafter : p.Houses (c.releaseNode (.ofLevels (levels + 1)) n) t) :
    Embeds p t rest (c.releaseNode (.ofLevels (levels + 1)) n)
      (b.releaseNode (.ofLevels (levels + 1)) (p.nodeId n)) := by
  have hn' := E.node?_some hn
  by_cases hlast : x.handles = 1
  · rw [releaseNode_of_last levels hn hlast] at hafter ⊢
    rw [releaseNode_of_last levels hn' hlast]
    exact E.destroyNode hown (.ofLevels levels) hc hb hn hlast hafter
  · rw [releaseNode_of_more levels hn hheld hlast, releaseNode_of_more levels hn' hheld' hlast]
    exact E.adjustHandles n fun k => k - 1

end Bus.Embeds

end ObjectBus
