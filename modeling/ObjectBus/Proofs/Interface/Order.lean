import ObjectBus.Bus.Build
import ObjectBus.Proofs.Entries

/-!
# Tables in name order

The tables of an interface are in name order, each name once (`Interface.InOrder`), because they are
collected so when the interface is built (`Bus.inOrder_of_buildInterface`). `Bus.InOrder` says it of
every interface value of a bus.

Building a member makes no value and changes none.
-/

set_option autoImplicit false

namespace ObjectBus

/-- **The properties are in name order**, each name once. -/
def Interface.InOrder (x : Interface) : Prop := Entries.Sorted x.properties

namespace Bus

/-- A table of members has the names of its declarations. -/
theorem keys_of_buildTable {σ α : Type} {build : σ → Bus → Except Trouble α × Bus}
    {specs : List (String × σ)} {b b' : Bus} {members : Entries String α}
    (h : buildTable build specs b = (.ok members, b')) :
    Entries.keys members = specs.map Prod.fst := by
  induction specs generalizing b members with
  | nil =>
      cases h
      rfl
  | cons e specs ih =>
      obtain ⟨name, spec⟩ := e
      unfold buildTable at h
      split at h
      · cases h
      · split at h
        · cases h
        · next hrest =>
            cases h
            exact congrArg (name :: ·) (ih hrest)

/-- **An interface is built in order.** -/
theorem inOrder_of_buildInterface {name : String} {functions : List (String × FunctionSpec)}
    {properties : List (String × PropertySpec)} {signals : List (String × SignalSpec)} {b b' : Bus}
    {x : Interface} (h : b.buildInterface name functions properties signals = (.ok x, b')) :
    x.InOrder := by
  unfold buildInterface at h
  split at h
  · cases h
  split at h
  · cases h
  · next hproperties =>
      split at h
      · cases h
      · cases h
        rw [Interface.InOrder, Entries.sorted_iff_keys, keys_of_buildTable hproperties]
        exact Entries.sorted_iff_keys.1 (Entries.sorted_collect properties)

/-- **Every interface value has its properties in name order.** -/
def InOrder (b : Bus) : Prop := ∀ i v, b.interface? i = some v → v.interface.InOrder

theorem interfaces_mentionAll (b : Bus) (labels : List String) :
    (b.mentionAll labels).interfaces = b.interfaces := by
  induction labels generalizing b with
  | nil => rfl
  | cons label labels ih =>
      refine (ih (b.mention label).2).trans ?_
      unfold mention
      split <;> rfl

theorem interfaces_buildProperty (b : Bus) (spec : PropertySpec) :
    (b.buildProperty spec).2.interfaces = b.interfaces := by
  have haccess : ∀ access, (b.buildAccess access).2.interfaces = b.interfaces := by
    intro access
    cases access with
    | validated accept bound => exact interfaces_mentionAll b bound.labels
    | _ => rfl
  obtain ⟨source, permissions, hook, commands⟩ := spec
  cases source with
  | cell name access =>
      dsimp only [buildProperty]
      split
      · rfl
      · split
        · split
          · exact haccess access
          · cases access <;> rfl
        · rfl
  | field name field =>
      dsimp only [buildProperty]
      split <;> rfl

end Bus

end ObjectBus
