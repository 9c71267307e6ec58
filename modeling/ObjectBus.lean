import ObjectBus.Session.Run
import ObjectBus.Proofs.Synchrony
import ObjectBus.Proofs.Isolation
import ObjectBus.Proofs.Staleness
import ObjectBus.Proofs.AllOrNothing
import ObjectBus.Proofs.Arena
import ObjectBus.Proofs.Reparenting
import ObjectBus.Proofs.Native
import ObjectBus.Proofs.Wire
import ObjectBus.Proofs.Shape.Signature
import ObjectBus.Proofs.Trie.Branches
import ObjectBus.Proofs.Emission
import ObjectBus.Proofs.Attachment
import ObjectBus.Proofs.Callbacks.Commands
import ObjectBus.Proofs.Callbacks.Copies
import ObjectBus.Proofs.Callbacks.Order
import ObjectBus.Proofs.Dispatch
import ObjectBus.Proofs.Value.Keys
import ObjectBus.Proofs.Delivery
import ObjectBus.Proofs.ReturnAddress
import ObjectBus.Proofs.Independence
import ObjectBus.Proofs.Invocation
import ObjectBus.Proofs.Storage
import ObjectBus.Proofs.Relocation
import ObjectBus.Proofs.Resolution
import ObjectBus.Proofs.Permission
import ObjectBus.Proofs.ArgumentCount
import ObjectBus.Proofs.Readout
import ObjectBus.Proofs.Registry.Calls
import ObjectBus.Proofs.Introspection
import ObjectBus.Proofs.TypedEmission
import ObjectBus.Proofs.NodeAddress
import ObjectBus.Proofs.Address.Ancestry
import ObjectBus.Proofs.Shape.Concatenation
import ObjectBus.Proofs.Forest.Gaps
import ObjectBus.Proofs.Traversal
import ObjectBus.Proofs.Callbacks.Operations
