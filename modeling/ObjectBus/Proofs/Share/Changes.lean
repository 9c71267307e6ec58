import ObjectBus.Proofs.Effect.Destruction
import ObjectBus.Proofs.Share.Calls

/-!
# Changes among others

What operations change besides calling transports: a node, an interface value, or the trees. Each of
these changes, made to corresponding things, leaves what a party has alone in correspondence with what it
has among others (`Bus.Embeds`). A new node or value takes the next id, so the share has to give it just
that one.
-/

set_option autoImplicit false

namespace ObjectBus

theorem Entries.put_mapValues {κ α : Type} [Ord κ] (k : κ) (a : α) (g : α → α)
    (es : Entries κ α) :
    Entries.put k (g a) (Entries.mapValues (fun _ => g) es) =
      Entries.mapValues (fun _ => g) (Entries.put k a es) := by
  induction es with
  | nil => rfl
  | cons e es ih =>
      obtain ⟨l, x⟩ := e
      simp only [Entries.mapValues, List.map_cons, Entries.put] at ih ⊢
      cases compare k l with
      | lt => rfl
      | eq => rfl
      | gt => simp only [List.map_cons, ih]

namespace Share

variable (p : Share)

theorem get?_interfaces (x : Node) (k : String) :
    Entries.get? k (p.node x).interfaces = (Entries.get? k x.interfaces).map p.valueId :=
  Entries.get?_mapValues (fun _ => p.valueId) k x.interfaces

theorem get?_none {x : Node} {k : String} (h : Entries.get? k x.interfaces = none) :
    Entries.get? k (p.node x).interfaces = none := by
  rw [get?_interfaces, h]
  rfl

theorem get?_some {x : Node} {k : String} {i : InterfaceId}
    (h : Entries.get? k x.interfaces = some i) :
    Entries.get? k (p.node x).interfaces = some (p.valueId i) := by
  rw [get?_interfaces, h]
  rfl

theorem owner_none {y : Instance} (h : y.owner = none) : (p.value y).owner = none := by
  rw [value, h]
  rfl

theorem owner_some {y : Instance} {n : NodeId} (h : y.owner = some n) :
    (p.value y).owner = some (p.nodeId n) := by
  rw [value, h]
  rfl

@[simp] theorem keys_interfaces (x : Node) :
    Entries.keys (p.node x).interfaces = Entries.keys x.interfaces :=
  Entries.keys_mapValues (fun _ => p.valueId) x.interfaces

theorem dropName_node (name : String) (x : Node) :
    Node.dropName name (p.node x) = p.node (Node.dropName name x) := by
  simp only [Node.dropName, node, Entries.drop_mapValues]

end Share

namespace Bus.Embeds

variable {p : Share} {t : TransportId} {rest c b : Bus} (E : Embeds p t rest c b)

include E

/-! ## Nodes -/

/-- Only the trees have changed, in both. -/
theorem of_forest {c' b' : Bus} (hc : c'.Orderly) (hb : b'.Orderly)
    (hci : c'.interfaces = c.interfaces) (hbi : b'.interfaces = b.interfaces)
    (hct : c'.transports = c.transports) (hbt : b'.transports = b.transports)
    (hforest : Forest.Embeds p rest.forest c'.forest b'.forest)
    (hbound : ∀ {n x}, c'.node? n = some x → ∀ u ∈ x.servers, u = t) :
    Embeds p t rest c' b' where
  alone := hc
  among := hb
  forest := hforest
  values i := by rw [interface?, interface?, hbi, hci]; exact E.values i
  others j hj := by rw [interface?, hbi]; exact E.others j hj
  bound := hbound
  live := by rw [isLiveServer, hct]; exact E.live
  live_among := by rw [isLiveServer, hbt]; exact E.live_among
  loopbacks := by rw [loopback?_congr hct, loopback?_congr hbt]; exact E.loopbacks

/-- The same change of corresponding nodes, by which they take no other transport than the one in
use. -/
theorem adjustNode (n : NodeId) {f g : Node → Node} (hf : Forest.KeepsPlace f)
    (hg : Forest.KeepsPlace g) (hsame : ∀ x, g (p.node x) = p.node (f x))
    (hservers : ∀ x, ∀ u ∈ (f x).servers, u ∈ x.servers ∨ u = t) :
    Embeds p t rest (c.adjustNode n f) (b.adjustNode (p.nodeId n) g) := by
  refine E.of_forest (E.alone.adjustNode n f) (E.among.adjustNode (p.nodeId n) g) rfl rfl
    rfl rfl (E.forest.adjust n hf hg hsame) fun {m x} hm u hu => ?_
  rw [node?_adjustNode] at hm
  split at hm
  · obtain ⟨y, hy, rfl⟩ := Option.map_eq_some_iff.1 hm
    rcases hservers y u hu with hu | hu
    · exact E.bound hy u hu
    · exact hu
  · exact E.bound hm u hu

/-- Handles of corresponding nodes. -/
theorem adjustHandles (n : NodeId) (f : Nat → Nat) :
    Embeds p t rest (c.adjustNode n fun x => { x with handles := f x.handles })
      (b.adjustNode (p.nodeId n) fun x => { x with handles := f x.handles }) :=
  E.adjustNode n ⟨fun _ => rfl, fun _ => rfl, fun _ => rfl⟩ ⟨fun _ => rfl, fun _ => rfl, fun _ => rfl⟩
    (fun _ => rfl) fun _ _ hu => Or.inl hu

theorem dropName (n : NodeId) (name : String) :
    Embeds p t rest (c.adjustNode n (Node.dropName name))
      (b.adjustNode (p.nodeId n) (Node.dropName name)) :=
  E.adjustNode n ⟨fun _ => rfl, fun _ => rfl, fun _ => rfl⟩ ⟨fun _ => rfl, fun _ => rfl, fun _ => rfl⟩
    (p.dropName_node name) fun _ _ hu => Or.inl hu

/-- **A new node.** -/
theorem grow (name : String) {parent : Option NodeId}
    (hp : ∀ q, parent = some q → (c.node? q).isSome) {servers : List TransportId}
    (hservers : ∀ u ∈ servers, u = t) (hnext : p.nodeId c.forest.next = b.forest.next) :
    Embeds p t rest { c with forest := (c.forest.grow name parent servers).2 }
      { b with forest := (b.forest.grow name (parent.map p.nodeId) servers).2 } := by
  have hforest := E.forest.grow name hp servers hnext
  refine E.of_forest ⟨hforest.alone.sorted, E.alone.interfaces, E.alone.transports,
      E.alone.loopbacks, E.alone.hookless⟩ ⟨hforest.among.sorted, E.among.interfaces,
      E.among.transports, E.among.loopbacks, E.among.hookless⟩ rfl rfl rfl rfl hforest
    fun {m x} hm u hu => ?_
  have hget := (Forest.get?_grow E.forest.alone name hp servers m).symm.trans hm
  split at hget
  · cases hget
    exact hservers u hu
  · obtain ⟨y, hy, rfl⟩ := Option.map_eq_some_iff.1 hget
    split at hu <;> exact E.bound hy u hu

/-- **A node is uprooted.** -/
theorem uprooted {n : NodeId} {x : Node} (hn : c.node? n = some x) :
    Embeds p t rest (c.uprooted n x) (b.uprooted (p.nodeId n) (p.node x)) := by
  refine E.of_forest (E.alone.uprooted E.forest.alone n x)
    (E.among.uprooted E.forest.among (p.nodeId n) (p.node x)) rfl rfl rfl rfl (E.forest.uproot hn)
    fun {m y} hm u hu => ?_
  have hget := (Forest.get?_uproot E.forest.alone hn m).symm.trans hm
  split at hget
  · cases hget
  · obtain ⟨z, hz, rfl⟩ := Option.map_eq_some_iff.1 hget
    exact E.bound hz u hu

/-! ## Interface values -/

/-- Only interface values have changed, in both. -/
theorem of_values {c' b' : Bus} (hcf : c'.forest = c.forest) (hbf : b'.forest = b.forest)
    (hct : c'.transports = c.transports) (hbt : b'.transports = b.transports)
    (hc : Entries.Sorted c'.interfaces) (hb : Entries.Sorted b'.interfaces)
    (hvalues : ∀ i, b'.interface? (p.valueId i) = (c'.interface? i).map p.value)
    (hothers : ∀ j, p.SparesValue j → b'.interface? j = b.interface? j) :
    Embeds p t rest c' b' where
  alone := by
    refine ⟨hcf ▸ E.alone.nodes, hc, hct ▸ E.alone.transports, fun u l hl => ?_, fun u r hr => ?_⟩
    · exact E.alone.loopbacks u l (by rwa [loopback?_congr hct] at hl)
    · exact E.alone.hookless u r (by rwa [recorder?, transport?, hct] at hr)
  among := by
    refine ⟨hbf ▸ E.among.nodes, hb, hbt ▸ E.among.transports, fun u l hl => ?_, fun u r hr => ?_⟩
    · exact E.among.loopbacks u l (by rwa [loopback?_congr hbt] at hl)
    · exact E.among.hookless u r (by rwa [recorder?, transport?, hbt] at hr)
  forest := by rw [hcf, hbf]; exact E.forest
  values := hvalues
  others j hj := (hothers j hj).trans (E.others j hj)
  bound {n x} hn := E.bound (by rw [Bus.node?, hcf] at hn; exact hn)
  live := by rw [isLiveServer, hct]; exact E.live
  live_among := by rw [isLiveServer, hbt]; exact E.live_among
  loopbacks := by rw [loopback?_congr hct, loopback?_congr hbt]; exact E.loopbacks

/-- The same change of corresponding values. -/
theorem adjustInterface (i : InterfaceId) {f g : Instance → Instance}
    (hsame : ∀ y, g (p.value y) = p.value (f y)) :
    Embeds p t rest (c.adjustInterface i f) (b.adjustInterface (p.valueId i) g) := by
  refine E.of_values rfl rfl rfl rfl (Entries.sorted_adjust E.alone.interfaces i f)
    (Entries.sorted_adjust E.among.interfaces _ g) (fun j => ?_) fun j hj => ?_
  · rw [interface?_adjustInterface, interface?_adjustInterface, E.values]
    by_cases hji : j = i
    · subst hji
      simp only [if_true, Option.map_map, Function.comp_def, hsame]
    · rw [if_neg hji, if_neg fun heq => hji (p.valueId_injective heq)]
  · rw [interface?_adjustInterface, if_neg (hj i).symm]

theorem setOwner (i : InterfaceId) (owner : Option NodeId) :
    Embeds p t rest (c.setOwner i owner) (b.setOwner (p.valueId i) (owner.map p.nodeId)) :=
  E.adjustInterface i fun _ => rfl

/-- Values are on their own. -/
theorem disowned (is : List InterfaceId) :
    Embeds p t rest (c.disowned is) (b.disowned (is.map p.valueId)) := by
  unfold Bus.disowned
  induction is generalizing c b with
  | nil => exact E
  | cons i is ih => exact ih (E.setOwner i none)

/-- A value is gone. -/
theorem forget (i : InterfaceId) :
    Embeds p t rest (c.forget i) (b.forget (p.valueId i)) := by
  refine E.of_values rfl rfl rfl rfl (Entries.sorted_drop E.alone.interfaces i)
    (Entries.sorted_drop E.among.interfaces _) (fun j => ?_) fun j hj => ?_
  · rw [interface?_forget E.alone, interface?_forget E.among, E.values]
    by_cases hji : j = i
    · rw [if_pos hji, if_pos (congrArg p.valueId hji)]
      rfl
    · rw [if_neg hji, if_neg fun heq => hji (p.valueId_injective heq)]
  · rw [interface?_forget E.among, if_neg (hj i).symm]

/-- **A new value.** -/
theorem newInstance (y : Instance) (hnext : p.valueId c.next = b.next) :
    Embeds p t rest (c.newInstance y).2 (b.newInstance (p.value y)).2 := by
  refine E.of_values rfl rfl rfl rfl (Entries.sorted_put E.alone.interfaces _ _)
    (Entries.sorted_put E.among.interfaces _ _) (fun j => ?_) fun j hj => ?_
  · rw [interface?_newInstance, interface?_newInstance, E.values]
    by_cases hj : j = c.next
    · rw [if_pos hj, if_pos (hj ▸ hnext)]
      rfl
    · rw [if_neg hj, if_neg fun heq => hj (p.valueId_injective (heq.trans hnext.symm))]
  · have hnew : j ≠ b.next := fun heq => hj c.next (hnext.trans heq.symm)
    rw [interface?_newInstance, if_neg hnew]

/-- A value is entered at a node. -/
theorem enter (n : NodeId) (name : String) (i : InterfaceId) :
    Embeds p t rest (c.enter n name i) (b.enter (p.nodeId n) name (p.valueId i)) := by
  have hput : ∀ x : Node,
      { p.node x with interfaces := Entries.put name (p.valueId i) (p.node x).interfaces } =
        p.node { x with interfaces := Entries.put name i x.interfaces } := fun x => by
    simp only [Share.node, Entries.put_mapValues]
  exact (E.adjustNode (f := fun x => { x with interfaces := Entries.put name i x.interfaces })
    (g := fun x => { x with interfaces := Entries.put name (p.valueId i) x.interfaces }) n
    ⟨fun _ => rfl, fun _ => rfl, fun _ => rfl⟩ ⟨fun _ => rfl, fun _ => rfl, fun _ => rfl⟩ hput
    fun _ _ hu => Or.inl hu).setOwner i (some n)

end Bus.Embeds

end ObjectBus
