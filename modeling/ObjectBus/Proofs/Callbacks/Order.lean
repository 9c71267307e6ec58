import ObjectBus.Proofs.Callbacks.Commands

/-!
# Tables in name order, while transports call back

Every session leaves the properties of every interface value in name order
(`Session.inOrder_busAfter`), whatever transports do when they call back. An interface is built in
order, a value that is copied or moved out of its handle has the table that it had, and editing keeps a
table in order; nothing else that happens to a value has to do with its table.

The invariant is about whatever stands in the table of values (`Bus.AllInOrder`), so that it does not
matter there which value an id leads to.
-/

set_option autoImplicit false

namespace ObjectBus

namespace Bus

/-- **Every value that is anywhere in the table has its properties in name order.** -/
def AllInOrder (b : Bus) : Prop := ∀ e ∈ b.interfaces, e.2.interface.InOrder

/-- **Anything that keeps tables in order.** -/
def KeepsOrder (b b' : Bus) : Prop := b.AllInOrder → b'.AllInOrder

theorem AllInOrder.inOrder {b : Bus} (hb : b.AllInOrder) : b.InOrder := fun _ _ hv =>
  hb _ (Entries.mem_of_get? hv)

theorem keepsOrder_of_same {b b' : Bus} (h : b'.interfaces = b.interfaces) : b.KeepsOrder b' := by
  intro hb
  rw [AllInOrder, h]
  exact hb

/-- A value is changed, and its table stays in order. -/
theorem AllInOrder.adjustInterface {b : Bus} (hb : b.AllInOrder) (i : InterfaceId)
    {change : Instance → Instance}
    (hchange : ∀ y, y.interface.InOrder → (change y).interface.InOrder) :
    (b.adjustInterface i change).AllInOrder := by
  intro e he
  rcases Entries.mem_adjust he with he | ⟨d, hd, rfl⟩
  · exact hb e he
  · exact hchange d.2 (hb d hd)

/-- The table of a value is left alone. -/
theorem keepsOrder_adjustInterface (b : Bus) (i : InterfaceId) {change : Instance → Instance}
    (hchange : ∀ y, (change y).interface = y.interface) : b.KeepsOrder (b.adjustInterface i change) :=
  fun hb => hb.adjustInterface i fun y hy => by
    rw [hchange]
    exact hy

theorem keepsOrder_setOwner (b : Bus) (i : InterfaceId) (owner : Option NodeId) :
    b.KeepsOrder (b.setOwner i owner) := keepsOrder_adjustInterface b i fun _ => rfl

theorem AllInOrder.newInstance {b : Bus} (hb : b.AllInOrder) {v : Instance}
    (hv : v.interface.InOrder) : (b.newInstance v).2.AllInOrder := by
  intro e he
  rcases Entries.mem_put he with rfl | he
  · exact hv
  · exact hb e he

theorem AllInOrder.dropValue {b : Bus} (hb : b.AllInOrder) (i : InterfaceId) :
    AllInOrder { b with interfaces := Entries.drop i b.interfaces } := fun e he =>
  hb e ((Entries.drop_sublist i b.interfaces).subset he)

end Bus

/-- **A host keeps tables in order**, whatever it is asked to do. -/
structure Host.Neat (h : Host) : Prop where
  perform : ∀ commands b, Bus.KeepsOrder b (h.perform commands b)
  destroyNode : ∀ n b, Bus.KeepsOrder b (h.destroyNode n b)
  destroyInterface : ∀ i b, Bus.KeepsOrder b (h.destroyInterface i b)

namespace Host.Neat

variable {h : Host} (hh : h.Neat)

include hh

/-- Attaching and detaching keep tables in order. -/
def tables : TableLaw h where
  Holds := Bus.KeepsOrder
  refl _ := id
  trans hbc hcd := hcd ∘ hbc
  aside _ hvalues _ _ := Bus.keepsOrder_of_same hvalues
  perform := hh.perform
  table _ _ _ := Bus.keepsOrder_of_same rfl
  owner := Bus.keepsOrder_setOwner

theorem releaseNode (b : Bus) (n : NodeId) : b.KeepsOrder (b.releaseNode h n) := by
  have hless : b.KeepsOrder (b.adjustNode n fun x => { x with handles := x.handles - 1 }) :=
    Bus.keepsOrder_of_same rfl
  unfold Bus.releaseNode
  dsimp only
  split
  · exact hless
  · exact hh.destroyNode n _ ∘ hless

theorem nameNode (b : Bus) (name : String) (n : NodeId) : b.KeepsOrder (b.nameNode h name n) := by
  unfold Bus.nameNode
  dsimp only
  split
  · exact Bus.keepsOrder_of_same rfl
  · exact hh.releaseNode _ _ ∘ Bus.keepsOrder_of_same rfl

theorem destroyNow (b : Bus) (i : InterfaceId) : b.KeepsOrder (b.destroyInterface h i) := fun hb =>
  (hh.tables.release b i hb).dropValue i

/-- **Commands keep tables in order.** -/
def commands : CommandLaw h where
  toCallLaw := hh.tables.toCallLaw
  node _ _ _ _ := Bus.keepsOrder_of_same rfl
  count b i _ := Bus.keepsOrder_adjustInterface b i fun _ => rfl
  edit {_ i y} hi _ hproperties hb :=
    hb.adjustInterface i fun _ _ => hproperties (hb.inOrder i y hi)
  newValue hv hb := hb.newInstance (hv hb.inOrder)
  moveOut {_ i y} hi hb := by
    have hy : y.interface.InOrder := hb.inOrder i y hi
    exact (hb.dropValue i).newInstance hy
  destroyInterface := hh.destroyInterface
  attach {b i _} _ _ n :=
    hh.tables.attach _ i n ∘ Bus.keepsOrder_adjustInterface b i fun _ => rfl
  detach := hh.tables.detach
  held {_ _ n} _ _ hwork := hh.releaseNode _ n ∘ hwork ∘ Bus.keepsOrder_of_same rfl
  plant _ id _ _ _ _ := hh.nameNode _ id _ ∘ Bus.keepsOrder_of_same rfl
  share {_ _ n} _ id := hh.nameNode _ id n ∘ Bus.keepsOrder_of_same rfl
  unname {_ _ n} _ := hh.releaseNode _ n ∘ Bus.keepsOrder_of_same rfl

end Host.Neat

namespace Bus

/-! ## Destroying nodes -/

section Destroy

variable {h : Host} (hh : h.Neat)

include hh

theorem keepsOrder_pin (b : Bus) (m : Relocation) : b.KeepsOrder (b.pin m) := by
  unfold pin
  refine hh.commands.holdAll _ m.servers m.interfaces ∘ ?_
  split
  · exact keepsOrder_of_same rfl
  · exact id

theorem keepsOrder_unpin (b : Bus) (m : Relocation) : b.KeepsOrder (b.unpin h m) := by
  unfold unpin
  refine hh.commands.releaseAll _ m.servers m.interfaces ∘ ?_
  split
  · exact hh.releaseNode b m.node
  · exact id

/-- **Destroying a node** keeps tables in order: each of its steps does. -/
theorem keepsOrder_destroyNode (b : Bus) (n : NodeId) : b.KeepsOrder (b.destroyNode h n) := by
  unfold destroyNode
  split
  · exact id
  · next x hn =>
      have hleft := hh.tables.leaveAll b n (Entries.keys x.interfaces) x.managing.isSome
        (b.transportsOf x)
      dsimp only
      generalize ((b.transportsOf x).foldl (fun b t => b.leave h n (Entries.keys x.interfaces)
        x.managing.isSome t) (b.holdServers (b.transportsOf x))) = b₁ at hleft ⊢
      generalize (Entries.values x.interfaces).filter b₁.isLiveInterface = held
      have hdisowned : b₁.KeepsOrder
          (held.foldl (fun b i => b.setOwner i none) (b₁.holdInterfaces held)) :=
        hh.tables.foldl (fun c i => keepsOrder_setOwner c i none) held _ ∘
          hh.commands.holdInterfaces b₁ held
      generalize held.foldl (fun b i => b.setOwner i none) (b₁.holdInterfaces held) = b₂
        at hdisowned ⊢
      generalize (if x.parent.isSome = true then (b₂.forest.descendants n).filterMap b₂.snapshot
        else []) = moved
      have hmoved : b₂.KeepsOrder
          (moved.foldl (fun b m => b.withdraw h m) (moved.foldl pin b₂)) :=
        hh.tables.foldl hh.tables.withdraw moved _ ∘
          hh.tables.foldl (keepsOrder_pin hh) moved b₂
      generalize moved.foldl (fun b m => b.withdraw h m) (moved.foldl pin b₂) = b₃ at hmoved ⊢
      have huprooted : b₃.KeepsOrder
          { b₃ with forest := b₃.forest.uproot n x.name x.parent x.children } :=
        keepsOrder_of_same rfl
      have hback : ∀ c : Bus, c.KeepsOrder
          (moved.foldl (fun b m => b.unpin h m) (moved.foldl (fun b m => b.restore h m) c)) :=
        fun c => hh.tables.foldl (keepsOrder_unpin hh) moved _ ∘
          hh.tables.foldl hh.tables.restore moved c
      have hreleased : ∀ c : Bus,
          c.KeepsOrder ((c.releaseInterfaces h held).releaseServers (b.transportsOf x)) := fun c =>
        hh.tables.releaseServers _ _ ∘ hh.commands.releaseInterfaces c held
      exact hreleased _ ∘ hback _ ∘ huprooted ∘ hmoved ∘ hdisowned ∘ hleft

end Destroy

end Bus

theorem Host.neat_inert : Host.inert.Neat := ⟨fun _ _ => id, fun _ _ => id, fun _ _ => id⟩

/-- **The host of every level keeps tables in order**: it carries commands and destructions out with the
host of the level below. -/
theorem Host.neat_ofLevels (levels : Nat) : (Host.ofLevels levels).Neat := by
  induction levels with
  | zero => exact Host.neat_inert
  | succ levels ih =>
      exact ⟨fun commands b => ih.commands.executeLogged b commands,
        fun n b => Bus.keepsOrder_destroyNode ih b n, fun i b => ih.destroyNow b i⟩

/-- **After a session every interface value has its properties in name order.** -/
theorem Session.inOrder_busAfter (levels : Nat) (commands : List Command) :
    (busAfter levels commands).InOrder := by
  have hempty : Bus.AllInOrder {} := fun e he => absurd he List.not_mem_nil
  exact ((Host.neat_ofLevels levels).commands.runFrom {} commands hempty).inOrder

end ObjectBus
