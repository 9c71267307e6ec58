import ObjectBus.Proofs.Effect.Operations

/-!
# What an operation does to the trees

Most operations leave every node where it is and change only what nodes have
(`Forest.SameTrees`). The others let one node grow or uproot one. So whatever an operation is
called, the forest takes one of three steps (`Forest.Evolves`), and every invariant of the trees is
an invariant of these.

Ids are given out for what an operation makes, and for nothing else (`next_apply`).
-/

set_option autoImplicit false

namespace ObjectBus

/-- **A node that stands where it stood**, and is not bound to a transport once more. -/
structure Node.Settled (x x' : Node) : Prop where
  name : x'.name = x.name
  parent : x'.parent = x.parent
  children : x'.children = x.children
  servers : x.servers.Nodup → x'.servers.Nodup

theorem Node.Settled.refl (x : Node) : x.Settled x := ⟨rfl, rfl, rfl, id⟩

theorem Node.Settled.trans {x x' x'' : Node} (h : x.Settled x') (h' : x'.Settled x'') :
    x.Settled x'' :=
  ⟨h'.name.trans h.name, h'.parent.trans h.parent, h'.children.trans h.children,
    h'.servers ∘ h.servers⟩

namespace Forest

/-- **The trees are the same**, node by node. -/
structure SameTrees (f f' : Forest) : Prop where
  next : f'.next = f.next
  node : ∀ n, Option.Rel Node.Settled (f.get? n) (f'.get? n)

theorem SameTrees.refl (f : Forest) : f.SameTrees f where
  next := rfl
  node n := by
    cases f.get? n with
    | none => exact Option.Rel.none
    | some x => exact Option.Rel.some (Node.Settled.refl x)

theorem SameTrees.trans {f f' f'' : Forest} (h : f.SameTrees f') (h' : f'.SameTrees f'') :
    f.SameTrees f'' where
  next := h'.next.trans h.next
  node n := by
    have hn := h.node n
    have hn' := h'.node n
    generalize f.get? n = o at hn
    generalize f'.get? n = o' at hn hn'
    generalize f''.get? n = o'' at hn'
    cases hn with
    | none => exact hn'
    | some hx =>
        cases hn' with
        | some hx' => exact Option.Rel.some (hx.trans hx')

theorem SameTrees.of_eq {f f' : Forest} (h : f' = f) : f.SameTrees f' := h ▸ SameTrees.refl f

/-- A node that is there afterwards was there before. -/
theorem SameTrees.exists_node {f f' : Forest} (h : f.SameTrees f') {n : NodeId} {x' : Node}
    (hn : f'.get? n = some x') : ∃ x, f.get? n = some x ∧ x.Settled x' := by
  have hrel := h.node n
  rw [hn] at hrel
  generalize f.get? n = o at hrel
  cases hrel with
  | some hx => exact ⟨_, rfl, hx⟩

/-- One node changes, and stands where it stood. -/
theorem sameTrees_adjust (f : Forest) {n : NodeId} {change : Node → Node}
    (hc : ∀ x, f.get? n = some x → x.Settled (change x)) : f.SameTrees (f.adjust n change) where
  next := rfl
  node m := by
    rw [get?_adjust]
    split
    · next hm =>
        subst hm
        cases hx : f.get? m with
        | none => exact Option.Rel.none
        | some x => exact Option.Rel.some (hc x hx)
    · exact (SameTrees.refl f).node m

/-- **What an operation does to the forest**: nothing to any place in it, or it lets a node grow,
bound to some of the transports that its parent is bound to, or it uproots one. -/
inductive Evolves (f f' : Forest) : Prop
  | same (h : f.SameTrees f')
  | grown (name : String) (parent : Option NodeId) (servers : List TransportId)
      (hp : ∀ p, parent = some p → (f.get? p).isSome)
      (hs : servers = [] ∨ ∃ p y, f.get? p = some y ∧ servers.Sublist y.servers)
      (h : f' = (f.grow name parent servers).2)
  | uprooted {n : NodeId} {x : Node} (hn : f.get? n = some x)
      (h : f' = f.uproot n x.name x.parent x.children)

end Forest

namespace Bus

/-- **Nothing is made and no node moves**: the trees are the same, and no id was given out. -/
structure Stays (b b' : Bus) : Prop where
  trees : b.forest.SameTrees b'.forest
  next : b'.next = b.next

theorem Stays.refl (b : Bus) : b.Stays b := ⟨Forest.SameTrees.refl _, rfl⟩

theorem Stays.trans {b b' b'' : Bus} (h : b.Stays b') (h' : b'.Stays b'') : b.Stays b'' :=
  ⟨h.trees.trans h'.trees, h'.next.trans h.next⟩

theorem Called.stays {b b' : Bus} (h : b.Called b') : b.Stays b' := ⟨.of_eq h.forest, h.next⟩

/-- One node changes, and stands where it stood. -/
theorem stays_adjustNode (b : Bus) {n : NodeId} {change : Node → Node}
    (hc : ∀ x, b.node? n = some x → x.Settled (change x)) : b.Stays (b.adjustNode n change) :=
  ⟨Forest.sameTrees_adjust _ hc, rfl⟩

/-- Only interface values or transports have changed. -/
theorem stays_of_forest {b b' : Bus} (h : b'.forest = b.forest) (hnext : b'.next = b.next) :
    b.Stays b' := ⟨.of_eq h, hnext⟩

/-! ## Interface values come and go -/

theorem settled_dropName (x : Node) (name : String) : x.Settled (x.dropName name) :=
  ⟨rfl, rfl, rfl, id⟩

theorem settled_handles (x : Node) (c : Nat) : x.Settled { x with handles := c } :=
  ⟨rfl, rfl, rfl, id⟩

theorem stays_setOwner (b : Bus) (i : InterfaceId) (owner : Option NodeId) :
    b.Stays (b.setOwner i owner) := ⟨Forest.SameTrees.refl _, rfl⟩

theorem stays_enter (b : Bus) (n : NodeId) (name : String) (i : InterfaceId) :
    b.Stays (b.enter n name i) := by
  have hput : b.Stays (b.adjustNode n fun x =>
      { x with interfaces := Entries.put name i x.interfaces }) :=
    stays_adjustNode b fun x _ => ⟨rfl, rfl, rfl, id⟩
  exact hput.trans (stays_setOwner _ i (some n))

/-- A value that is taken off its node takes no node off its place. -/
theorem stays_release {b : Bus} (hb : b.Orderly) (h : Host) (i : InterfaceId) :
    b.Stays (b.release h i) := by
  have hdisowned := stays_setOwner b i none
  cases hi : b.interface? i with
  | none =>
      simp only [release, hi]
      exact Stays.refl _
  | some y =>
      cases ho : y.owner with
      | none =>
          simp only [release, hi, ho]
          exact Stays.refl _
      | some n =>
          cases hn : b.node? n with
          | none =>
              have hn' : (b.setOwner i none).node? n = none := hn
              simp only [release, hi, ho, hn']
              exact hdisowned
          | some x =>
              have hn' : (b.setOwner i none).node? n = some x := hn
              cases hj : Entries.get? y.interface.name x.interfaces with
              | none =>
                  simp only [release, hi, ho, hn', hj]
                  exact hdisowned
              | some j =>
                  cases hclears : (b.setOwner i none).clearsName i j with
                  | false =>
                      simp only [release, hi, ho, hn', hj, hclears, Bool.false_eq_true, if_false]
                      exact hdisowned
                  | true =>
                      rw [release_eq h hb hi ho hn hj hclears]
                      have hdropped := (b.setOwner i none).stays_adjustNode (n := n)
                        fun z _ => settled_dropName z y.interface.name
                      have hcalled := called_foldl_dropOf h ((hb.setOwner i none).adjustNode n
                        (Node.dropName y.interface.name)) n y.interface.name
                      exact (hdisowned.trans hdropped).trans (hcalled _).stays

/-- A handle to a value is let go. -/
theorem stays_releaseInterface {b : Bus} (hb : b.Orderly) (levels : Nat) (i : InterfaceId) :
    b.Stays (b.releaseInterface (.ofLevels (levels + 1)) i) := by
  have horderly : (b.adjustInterface i fun v => { v with handles := v.handles - 1 }).Orderly :=
    ⟨hb.nodes, Entries.sorted_adjust hb.interfaces i _, hb.transports, hb.loopbacks, hb.hookless⟩
  have hhandles : b.Stays (b.adjustInterface i fun v => { v with handles := v.handles - 1 }) :=
    ⟨Forest.SameTrees.refl _, rfl⟩
  unfold releaseInterface
  dsimp only
  split
  · exact hhandles
  · have hreleased := hhandles.trans (stays_release horderly (.ofLevels levels) i)
    exact ⟨hreleased.trees, hreleased.next⟩

/-- **A value comes to a node**, or does not. -/
theorem stays_attach {b : Bus} (hb : b.Sound) (h : Host) {i : InterfaceId} {y : Instance}
    {n : NodeId} {x : Node} (hi : b.interface? i = some y) (hn : b.node? n = some x) :
    b.Stays (b.attach h i n).2 ∧ (b.attach h i n).2.Orderly := by
  cases ho : y.owner with
  | some m =>
      rw [attach_of_owner h hi ho n]
      exact ⟨Stays.refl _, hb.orderly⟩
  | none =>
      cases hfree : (Entries.get? y.interface.name x.interfaces).any b.isLiveInterface with
      | true =>
          rw [attach_of_taken h hi ho hn hfree]
          exact ⟨Stays.refl _, hb.orderly⟩
      | false =>
          have heq : (b.attach h i n).2 = ((b.cleared h n x y.interface.name).enroll h i n
              y.interface.name (b.transportsOf x)).2 :=
            congrArg Prod.snd (attach_eq h hb.orderly hi ho hn hfree)
          have hc := cleared_spec hb.orderly h hn y.interface.name
          generalize b.cleared h n x y.interface.name = c at hc heq
          have horderly := (hc.sound hb).orderly
          have hcleared : b.Stays c :=
            (stays_adjustNode b fun z _ => settled_dropName z _).trans hc.called.stays
          have hcalled := called_registerEach horderly h n y.interface.name (b.transportsOf x)
          have hregistered := hcleared.trans hcalled.stays
          rw [heq]
          rcases enroll_cases h i n y.interface.name (b.transportsOf x) c with
            ⟨-, henroll⟩ | ⟨e, -, henroll⟩
          · rw [henroll]
            refine ⟨hregistered.trans ?_, ((hcalled.orderly horderly).adjustNode n _).setOwner i _⟩
            exact stays_enter _ n y.interface.name i
          · rw [henroll]
            exact ⟨hregistered, hcalled.orderly horderly⟩

theorem stays_makeInterface {b : Bus} (hb : b.Sound) (levels : Nat) {i : InterfaceId}
    {y : Instance} {n : NodeId} {x : Node} (hi : b.interface? i = some y)
    (hn : b.node? n = some x) :
    b.Stays (b.makeInterface (.ofLevels (levels + 1)) i n).2 := by
  have hi₁ : (b.handed i).interface? i = some { y with isLoose := false } := by
    rw [interface?_handed, if_pos rfl, hi]
    rfl
  have hhanded : b.Stays (b.handed i) := ⟨Forest.SameTrees.refl _, rfl⟩
  obtain ⟨hattach, horderly⟩ := stays_attach (hb.handed i) (.ofLevels (levels + 1)) hi₁
    (show (b.handed i).node? n = some x from hn)
  cases hres : ((b.handed i).attach (.ofLevels (levels + 1)) i n).1 with
  | ok u =>
      rw [makeInterface_of_ok hres]
      exact hhanded.trans hattach
  | error e =>
      rw [makeInterface_of_error hres]
      exact (hhanded.trans hattach).trans (stays_releaseInterface horderly levels i)

theorem stays_detach {b : Bus} (hb : b.Orderly) (h : Host) (n : NodeId) (name : String) :
    b.Stays (b.detach h n name).2 := by
  cases hn : b.node? n with
  | none =>
      simp only [detach, hn]
      exact Stays.refl _
  | some x =>
      cases hk : Entries.get? name x.interfaces with
      | none =>
          simp only [detach, hn, hk]
          exact Stays.refl _
      | some i =>
          have hcalled := called_foldl_dropOf h (hb.adjustNode n (Node.dropName name)) n name
            (b.transportsOf x)
          have hdropped := (stays_adjustNode b (n := n) fun z _ => settled_dropName z name).trans
            hcalled.stays
          rw [detach_eq h hb hn hk]
          dsimp only
          split
          · exact hdropped.trans (stays_setOwner _ i none)
          · exact hdropped

/-! ## Nodes and transports -/

/-- **Binding again does nothing**, so a node is never bound twice. -/
theorem stays_bind {b : Bus} (hb : b.Sound) (h : Host) (n : NodeId) (t : TransportId) :
    b.Stays (b.bind h n t).2 := by
  cases hn : b.node? n with
  | none =>
      simp only [bind, hn]
      exact Stays.refl _
  | some x =>
      by_cases ht : t ∈ x.servers
      · simp only [bind, hn, List.contains_iff_mem.2 ht, if_true]
        exact Stays.refl _
      · have hcalled := called_offersOf hb.orderly h n x t
        rcases bind_cases hb h hn ht with ⟨-, heq⟩ | ⟨e, -, heq⟩
        · rw [heq]
          have htold := hcalled.trans
            (called_told (hcalled.orderly hb.orderly) h n t x.managing)
          refine htold.stays.trans (stays_adjustNode _ ?_)
          intro z hz
          obtain rfl : x = z := Option.some.inj (hn.symm.trans ((htold.node? n).symm.trans hz))
          refine ⟨rfl, rfl, rfl, fun hnodup => ?_⟩
          exact List.nodup_append.2 ⟨hnodup, by simp,
            fun a ha c hc hac => ht (List.mem_singleton.1 hc ▸ hac ▸ ha)⟩
        · rw [heq]
          exact hcalled.stays

theorem stays_unbind {b : Bus} (hb : b.Orderly) (h : Host) (n : NodeId) (t : TransportId) :
    b.Stays (b.unbind h n t).2 := by
  cases hn : b.node? n with
  | none =>
      simp only [unbind, hn]
      exact Stays.refl _
  | some x =>
      cases ht : x.servers.contains t with
      | false =>
          simp only [unbind, hn, ht, Bool.not_false, if_true]
          exact Stays.refl _
      | true =>
          have hleave := withdraws_leave (hb.adjustNode n (Node.unbindFrom t)) h n
            (Entries.keys x.interfaces) x.managing.isSome [t]
          have heq : (b.unbind h n t).2 = [t].foldl
              (fun b t => b.leave h n (Entries.keys x.interfaces) x.managing.isSome t)
              (b.adjustNode n (Node.unbindFrom t)) := by
            simp only [unbind, leave, hn, ht, Bool.not_true, Bool.false_eq_true, if_false,
              List.foldl_cons, List.foldl_nil]
            rfl
          have hunbound : b.Stays (b.adjustNode n (Node.unbindFrom t)) :=
            stays_adjustNode b fun z _ => ⟨rfl, rfl, rfl, fun hnodup => hnodup.filter _⟩
          rw [heq]
          exact hunbound.trans hleave.called.stays

theorem stays_manage {b : Bus} (hb : b.Orderly) (h : Host) (n : NodeId)
    (object : Option ObjectId) : b.Stays (b.manage h n object) := by
  cases hn : b.node? n with
  | none =>
      simp only [manage, hn]
      exact Stays.refl _
  | some x =>
      have hmanaged : b.Stays (b.adjustNode n (Node.manage object)) :=
        stays_adjustNode b fun z _ => ⟨rfl, rfl, rfl, id⟩
      have hcalled := called_foldl_callManage (hb.adjustNode n (Node.manage object)) h n object
      rw [manage_eq h hb hn object]
      exact hmanaged.trans (hcalled _).stays

/-! ## Nodes go -/

/-- **Letting the last handle of a node go uproots it.** -/
theorem forest_releaseNode {b : Bus} (hb : b.Sound) (levels : Nat) {n : NodeId} {x : Node}
    (hn : b.node? n = some x) (hlast : x.handles = 1) :
    (b.releaseNode (.ofLevels (levels + 1)) n).forest =
      b.forest.uproot n x.name x.parent x.children := by
  rw [releaseNode_of_last levels hn hlast, (called_without hb (.ofLevels levels) hn hlast).forest,
    forest_without]

/-- No id is given out when a node goes. -/
theorem next_releaseNode {b : Bus} (hb : b.Sound) (levels : Nat) {n : NodeId} {x : Node}
    (hn : b.node? n = some x) (hlast : x.handles = 1) :
    (b.releaseNode (.ofLevels (levels + 1)) n).next = b.next := by
  rw [releaseNode_of_last levels hn hlast, (called_without hb (.ofLevels levels) hn hlast).next,
    without, disowned, next_foldl_setOwner]
  rfl

/-- Letting a handle of a node go leaves all nodes in place if there are others. -/
theorem stays_releaseNode {b : Bus} (hh : b.Held) (levels : Nat) {n : NodeId} {x : Node}
    (hn : b.node? n = some x) (hmore : x.handles ≠ 1) :
    b.Stays (b.releaseNode (.ofLevels (levels + 1)) n) := by
  rw [releaseNode_of_more levels hn hh hmore]
  exact stays_adjustNode b fun z _ => settled_handles z _

end Bus

/-! ## One operation -/

/-- An operation that neither makes anything nor lets a node go. -/
def Operation.Rests : Operation → Prop
  | makeRoot _ => False
  | makeChild _ _ => False
  | dropNode _ => False
  | build _ => False
  | takeOut _ => False
  | openLoopback _ => False
  | openRecorder _ _ => False
  | _ => True

/-- How many nodes an operation makes. -/
def Operation.nodesMade : Operation → Bus → Nat
  | makeRoot _, _ => 1
  | makeChild parent _, b => if (b.node? parent).isSome then 1 else 0
  | _, _ => 0

/-- How many interface values and transports an operation makes. -/
def Operation.othersMade : Operation → Bus → Nat
  | build _, _ => 1
  | takeOut i, b =>
      if (b.interface? i).any fun x => !(x.isLoose || x.handles != 1) then 1 else 0
  | openLoopback settings, _ =>
      match Loopback.make settings with
      | .error _ => 0
      | .ok _ => 1
  | openRecorder _ _, _ => 1
  | _, _ => 0

theorem Operation.Rests.nodesMade {op : Operation} (hop : op.Rests) (b : Bus) :
    op.nodesMade b = 0 := by
  cases op <;> first | exact hop.elim | rfl

theorem Operation.Rests.othersMade {op : Operation} (hop : op.Rests) (b : Bus) :
    op.othersMade b = 0 := by
  cases op <;> first | exact hop.elim | rfl

namespace Bus

section Operation

variable {b : Bus} (hb : b.Sound) (hh : b.Held) (levels : Nat)

include hb

/-- **Most operations leave every node where it is**, and give no id out. -/
theorem stays_apply {op : Operation} (hop : op.Rests) : b.Stays (op.apply levels b) := by
  cases op with
  | holdNode n => exact stays_adjustNode b fun z _ => settled_handles z _
  | makeInterface i n =>
      simp only [Operation.apply]
      split
      · next hboth =>
          rw [Bool.and_eq_true] at hboth
          obtain ⟨x, hx, -⟩ := exists_of_isLiveNode hboth.2
          obtain ⟨y, hy⟩ := exists_of_isLoose hboth.1
          exact stays_makeInterface hb levels hy hx
      · exact Stays.refl b
  | holdInterface i =>
      simp only [Operation.apply]
      split <;> exact stays_of_forest rfl rfl
  | dropInterface i =>
      simp only [Operation.apply]
      split
      · exact stays_releaseInterface hb.orderly levels i
      · exact Stays.refl b
  | detach n name => exact stays_detach hb.orderly (.ofLevels (levels + 1)) n name
  | bind n t =>
      simp only [Operation.apply]
      split
      · exact stays_bind hb (.ofLevels (levels + 1)) n t
      · exact Stays.refl b
  | unbind n t =>
      simp only [Operation.apply]
      split
      · exact stays_unbind hb.orderly (.ofLevels (levels + 1)) n t
      · exact Stays.refl b
  | manage n object => exact stays_manage hb.orderly (.ofLevels (levels + 1)) n object
  | holdTransport t =>
      simp only [Operation.apply]
      split <;> exact stays_of_forest rfl rfl
  | dropTransport t => exact stays_of_forest rfl rfl
  | makeRoot | makeChild | dropNode | build | takeOut | openLoopback | openRecorder =>
      exact hop.elim

include hh

/-- **Whatever an operation does**, it leaves the trees alone, lets a node grow or uproots one. -/
theorem evolves_apply (op : Operation) : b.forest.Evolves (op.apply levels b).forest := by
  have hsame : b.forest.Evolves b.forest := .same (Forest.SameTrees.refl _)
  by_cases hop : op.Rests
  · exact .same (stays_apply hb levels hop).trees
  cases op with
  | makeRoot name => exact .grown name none [] (fun _ h => nomatch h) (Or.inl rfl) rfl
  | makeChild parent name =>
      cases hp : b.node? parent with
      | none =>
          simp only [Operation.apply, hp]
          exact hsame
      | some y =>
          simp only [Operation.apply, hp]
          refine .grown name (some parent) (b.transportsOf y) ?_
            (Or.inr ⟨parent, y, hp, List.filter_sublist⟩) rfl
          rintro q ⟨⟩
          exact Option.isSome_iff_exists.2 ⟨y, hp⟩
  | dropNode n =>
      simp only [Operation.apply]
      split
      · next hlive =>
          obtain ⟨x, hx, -⟩ := exists_of_isLiveNode hlive
          by_cases hlast : x.handles = 1
          · exact .uprooted hx (forest_releaseNode hb levels hx hlast)
          · exact .same (stays_releaseNode hh levels hx hlast).trees
      · exact hsame
  | takeOut i =>
      cases hi : b.interface? i with
      | none =>
          simp only [Operation.apply, hi]
          exact hsame
      | some y =>
          simp only [Operation.apply, hi]
          split <;> exact hsame
  | openLoopback settings =>
      cases hl : Loopback.make settings with
      | error e =>
          simp only [Operation.apply, hl]
          exact hsame
      | ok l =>
          simp only [Operation.apply, hl]
          exact hsame
  | build | openRecorder => exact hsame
  | holdNode | makeInterface | holdInterface | dropInterface | detach | bind | unbind | manage
    | holdTransport | dropTransport => exact absurd trivial hop

/-- **Ids are given out in turn** for what an operation makes. -/
theorem next_apply (op : Operation) :
    (op.apply levels b).forest.next = b.forest.next + op.nodesMade b ∧
      (op.apply levels b).next = b.next + op.othersMade b := by
  by_cases hop : op.Rests
  · have hstays := stays_apply hb levels hop
    rw [hop.nodesMade, hop.othersMade]
    exact ⟨hstays.trees.next, hstays.next⟩
  cases op with
  | makeRoot name => exact ⟨rfl, rfl⟩
  | makeChild parent name =>
      cases hp : b.node? parent with
      | none => simp [Operation.apply, Operation.nodesMade, Operation.othersMade, hp]
      | some y =>
          simp [Operation.apply, Operation.nodesMade, Operation.othersMade, hp, withForest]
  | dropNode n =>
      simp only [Operation.apply, Operation.nodesMade, Operation.othersMade, Nat.add_zero]
      split
      · next hlive =>
          obtain ⟨x, hx, -⟩ := exists_of_isLiveNode hlive
          by_cases hlast : x.handles = 1
          · rw [forest_releaseNode hb levels hx hlast, Forest.next_uproot]
            exact ⟨rfl, next_releaseNode hb levels hx hlast⟩
          · have hstays := stays_releaseNode hh levels hx hlast
            exact ⟨hstays.trees.next, hstays.next⟩
      · exact ⟨rfl, rfl⟩
  | takeOut i =>
      cases hi : b.interface? i with
      | none => simp [Operation.apply, Operation.nodesMade, Operation.othersMade, hi]
      | some y =>
          simp only [Operation.apply, Operation.nodesMade, Operation.othersMade, hi,
            Option.any_some, Bool.not_eq_true']
          cases y.isLoose || y.handles != 1 <;> exact ⟨rfl, rfl⟩
  | openLoopback settings =>
      cases hl : Loopback.make settings with
      | error e =>
          simp only [Operation.apply, Operation.othersMade, hl]
          exact ⟨rfl, rfl⟩
      | ok l =>
          simp only [Operation.apply, Operation.othersMade, hl]
          exact ⟨rfl, rfl⟩
  | build | openRecorder => exact ⟨rfl, rfl⟩
  | holdNode | makeInterface | holdInterface | dropInterface | detach | bind | unbind | manage
    | holdTransport | dropTransport => exact absurd trivial hop

end Operation

end Bus

end ObjectBus
