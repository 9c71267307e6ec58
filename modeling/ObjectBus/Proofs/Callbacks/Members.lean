import ObjectBus.Bus.Build
import ObjectBus.Bus.Emit
import ObjectBus.Bus.Remote
import ObjectBus.Proofs.Callbacks.Laws

/-!
# Members, while transports call back

Emitting a signal, calling a function and writing a property, directly or from afar, and building an
interface value: nothing of it concerns a law. What may is what is called on the way, a transport or a
list of commands.
-/

set_option autoImplicit false

namespace ObjectBus

namespace CallLaw

variable {h : Host} (L : CallLaw h) (b : Bus)

/-! ## Literals -/

theorem mention (label : String) : L.Holds b (b.mention label).2 := by
  unfold Bus.mention
  split
  · exact L.refl b
  · exact L.aside rfl rfl rfl (Nat.le_succ _)

theorem mentionAll (labels : List String) : L.Holds b (b.mentionAll labels) :=
  foldl (fun c label => L.mention c label) labels b

theorem evaluate (l : Literal) : L.Holds b (b.evaluate l).2 :=
  L.mentionAll b l.labels

theorem evaluateAll (ls : List Literal) : L.Holds b (b.evaluateAll ls).2 :=
  L.mentionAll b (Literal.labelsOfAll ls)

theorem takeInHand (vs : List Value) : L.Holds b (b.takeInHand vs) := L.desk b rfl

theorem letGo (n : Nat) : L.Holds b (b.letGo n) := L.desk b rfl

/-! ## Signals -/

theorem fanOut (interface signal : String) (args : List Value) (argsType : Shape)
    (targets : List (TransportId × String)) :
    L.Holds b (b.fanOut h interface signal args argsType targets) :=
  foldl (fun c (target : TransportId × String) =>
    (L.callEmit c target.1 target.2 interface signal args argsType).trans
      (L.releaseServer _ target.1)) targets b

theorem send (i : InterfaceId) (signal : String) (args : List Value) (argsType : Shape) :
    L.Holds b (b.send h i signal args argsType).2 := by
  unfold Bus.send
  split
  · exact L.refl b
  · split
    · exact L.refl b
    · split
      · exact L.refl b
      · split
        · exact L.refl b
        · split
          · exact (L.holdServers b _).trans (L.fanOut _ _ _ _ _ _)
          · exact L.refl b

theorem emitValues (i : InterfaceId) (signal : String) (args : List Value) :
    L.Holds b (b.emitValues h i signal args).2 := by
  unfold Bus.emitValues
  split
  · exact L.refl b
  · split
    · exact L.refl b
    · split
      · exact L.refl b
      · exact L.send b i signal args _

theorem emitPack (i : InterfaceId) (signal : String) (types : List Native)
    (args : Native.Pack types) : L.Holds b (b.emitPack h i signal types args).2 := by
  unfold Bus.emitPack
  split
  · exact L.refl b
  · split
    · exact L.refl b
    · split
      · exact L.refl b
      · exact L.send b i signal _ _

/-! ## Functions and properties -/

/-- Whatever a function does, it may only enter the bus again through commands. -/
theorem run (r : Routine) (subject : r.Subject) (args : Native.Pack r.args) :
    L.Holds b (r.run h subject args b).2 := by
  cases r with
  | sink t => exact L.writeLog b _
  | note => exact L.writeLog b _
  | commands list => exact L.perform list b
  | method m target =>
      simp only [Routine.run]
      split
      · exact L.refl b
      · exact L.aside rfl rfl rfl (Nat.le_refl _)
  | _ => exact L.refl b

theorem callFunction (f : Function) (args : List Value) :
    L.Holds b (b.callFunction h f args).2 := by
  unfold Bus.callFunction Callable.invoke invokeTyped
  split
  · exact L.refl b
  · next xs _ =>
      split
      · exact L.refl b
      · next subject _ =>
          have hrun := L.run b f.routine subject xs
          change L.Holds b ((f.callable h).run subject xs b).2 at hrun
          generalize (f.callable h).run subject xs b = p at hrun ⊢
          obtain ⟨_ | ys, c⟩ := p
          · exact hrun
          · exact hrun

theorem runPropertyHook (p : Property) (v : Value) :
    L.Holds b (b.runPropertyHook h p v) := by
  unfold Bus.runPropertyHook
  split
  · exact L.refl b
  · exact (L.writeLog b _).trans (L.perform _ _)

theorem writeProperty (p : Property) (v : Value) :
    L.Holds b (b.writeProperty h p v).2 := by
  have hset : ∀ cell, L.Holds b (b.setCell p.source.cellId cell) := fun cell =>
    L.aside rfl rfl rfl (Nat.le_refl _)
  unfold Bus.writeProperty
  split
  · exact L.refl b
  · exact L.refl b
  · next cell _ => exact (hset cell).trans (L.runPropertyHook _ p v)
  · next cell _ _ => exact hset cell

/-! ## Building -/

theorem newTransport (transport : Transport) :
    L.Holds b (b.newTransport transport).2 := L.aside rfl rfl rfl (Nat.le_succ _)

theorem buildFunction (spec : FunctionSpec) : L.Holds b (b.buildFunction spec).2 := by
  obtain ⟨args, returns, routine⟩ := spec
  cases routine with
  | constant t l =>
      refine (L.evaluate b l).trans ?_
      dsimp only [Bus.buildFunction]
      split <;> exact L.refl _
  | method m target =>
      dsimp only [Bus.buildFunction]
      split
      · exact L.refl b
      · split <;> exact L.refl b
  | _ => exact L.refl b

theorem buildAccess (spec : AccessSpec) : L.Holds b (b.buildAccess spec).2 := by
  cases spec with
  | validated accept bound => exact L.evaluate b bound
  | _ => exact L.refl b

theorem buildProperty (spec : PropertySpec) : L.Holds b (b.buildProperty spec).2 := by
  obtain ⟨source, permissions, hook, commands⟩ := spec
  cases source with
  | cell name access =>
      dsimp only [Bus.buildProperty]
      split
      · exact L.refl b
      · split
        · split
          · exact L.buildAccess b access
          · cases access <;> exact L.refl b
        · exact L.refl b
  | field name field =>
      dsimp only [Bus.buildProperty]
      split <;> exact L.refl b

theorem buildTable {σ α : Type} {build : σ → Bus → Except Trouble α × Bus}
    (hbuild : ∀ spec b, L.Holds b (build spec b).2) (specs : List (String × σ)) :
    L.Holds b (b.buildTable build specs).2 := by
  induction specs generalizing b with
  | nil => exact L.refl b
  | cons e specs ih =>
      obtain ⟨name, spec⟩ := e
      have hfirst := hbuild spec b
      unfold Bus.buildTable
      generalize build spec b = p at hfirst ⊢
      obtain ⟨_ | member, c⟩ := p
      · exact hfirst
      · have hrest := ih c
        dsimp only
        generalize Bus.buildTable build specs c = p at hrest ⊢
        obtain ⟨_ | members, d⟩ := p
        · exact hfirst.trans hrest
        · exact hfirst.trans hrest

theorem buildInterface (name : String) (functions : List (String × FunctionSpec))
    (properties : List (String × PropertySpec)) (signals : List (String × SignalSpec)) :
    L.Holds b (b.buildInterface name functions properties signals).2 := by
  have hfunctions := L.buildTable b (fun spec b => L.buildFunction b spec)
    (Entries.collect functions)
  unfold Bus.buildInterface
  generalize Bus.buildTable Bus.buildFunction (Entries.collect functions) b = p at hfunctions ⊢
  obtain ⟨_ | fs, c⟩ := p
  · exact hfunctions
  refine hfunctions.trans ?_
  have hproperties := L.buildTable c (fun spec b => L.buildProperty b spec)
    (Entries.collect properties)
  dsimp only
  generalize Bus.buildTable Bus.buildProperty (Entries.collect properties) c = p at hproperties ⊢
  obtain ⟨_ | ps, d⟩ := p
  · exact hproperties
  refine hproperties.trans ?_
  have hsignals : L.Holds d (d.buildTable (fun s b => (Bus.buildSignal s, b))
      (Entries.collect signals)).2 := L.buildTable d (fun _ c => L.refl c) _
  dsimp only
  generalize Bus.buildTable (fun s b => (Bus.buildSignal s, b)) (Entries.collect signals) d = p
    at hsignals ⊢
  obtain ⟨_ | ss, c⟩ := p
  · exact hsignals
  · exact hsignals

end CallLaw

/-! ## Members, from afar -/

namespace CommandLaw

variable {h : Host} (L : CommandLaw h) (b : Bus)

theorem remoteCall (t : TransportId) (l : Loopback) (address interface name : String)
    (args : List Value) : L.Holds b (b.remoteCall h t l address interface name args).2 := by
  unfold Bus.remoteCall Bus.remoteCallOf
  split
  · exact L.refl b
  · next i x _ =>
      split
      · exact L.refl b
      · next f _ =>
          split
          · exact L.refl b
          · next values _ =>
              exact ((L.holdInterface b i).trans
                (L.callFunction _ f values)).trans (L.releaseInterface _ i)

theorem remoteSet (l : Loopback) (address interface name : String) (v : Value) :
    L.Holds b (b.remoteSet h l address interface name v).2 := by
  unfold Bus.remoteSet
  split
  · exact L.refl b
  · next i x _ =>
      split
      · exact L.refl b
      · next p _ =>
          split
          · exact L.refl b
          · next w _ =>
              exact ((((L.holdInterface b i).trans (L.takeInHand _ [w])).trans
                (L.writeProperty _ p w)).trans (L.letGo _ 1)).trans
                  (L.releaseInterface _ i)

end CommandLaw

end ObjectBus
