import ObjectBus.Proofs.Bus.Registering
import ObjectBus.Proofs.Effect.Interfaces

/-!
# Effects of attaching

A name that leads to nothing is cleared before it is taken (`Bus.Cleared`), then the name is
registered on all transports of the node, then it is entered. The bus in between is sound, so a
refusal may stop there.
-/

set_option autoImplicit false

namespace ObjectBus.Bus

/-! ## Clearing a name -/

/-- Clears a name of a node, if it has it. -/
def cleared (h : Host) (n : NodeId) (x : Node) (name : String) (b : Bus) : Bus :=
  if (Entries.get? name x.interfaces).isSome then b.clearName h n name (b.transportsOf x) else b

/-- **A name was cleared**, where a node had it. -/
structure Cleared (b c : Bus) (n : NodeId) (x : Node) (name : String) : Prop where
  called : (b.adjustNode n (Node.dropName name)).Called c
  registered : ∀ t a k o, c.Registered t a k o ↔ b.Registered t a k o ∧
    ¬((Entries.get? name x.interfaces).isSome = true ∧ b.At n t a ∧ k = name)
  managed : ∀ t a, c.managed? t a = b.managed? t a

theorem Called.adjustNode {b b' : Bus} (hc : b.Called b') (hb : b.Orderly) (n : NodeId)
    (change : Node → Node) : (b.adjustNode n change).Called (b'.adjustNode n change) where
  forest := congrArg (fun f : Forest => f.adjust n change) hc.forest
  interfaces := hc.interfaces
  next := hc.next
  alike := hc.alike
  orderly _ := (hc.orderly hb).adjustNode n change

theorem cleared_spec {b : Bus} (hb : b.Orderly) (h : Host) {n : NodeId} {x : Node}
    (hn : b.node? n = some x) (name : String) : b.Cleared (b.cleared h n x name) n x name := by
  unfold cleared
  split
  · next hk =>
      have hw := withdraws_dropOf hb h n name (b.transportsOf x)
      refine ⟨hw.called.adjustNode hb n _, fun t a k o => ?_, fun t a => ?_⟩
      · refine (hw.registered t a k o).trans ?_
        rw [at_iff hn]
        simp only [hk, true_and, and_assoc]
      · refine Option.ext fun o => (hw.managed t a o).trans ?_
        simp
  · next hk =>
      rw [Option.not_isSome_iff_eq_none] at hk
      have hsame : b.adjustNode n (Node.dropName name) = b := by
        refine adjustNode_eq_self fun x' hx' => ?_
        obtain rfl : x = x' := Option.some.inj (hn.symm.trans hx')
        exact Node.dropName_eq_self hk
      refine ⟨by rw [hsame]; exact Called.refl b, fun t a k o => ?_, fun _ _ => rfl⟩
      simp [hk]

namespace Cleared

variable {b c : Bus} {n : NodeId} {x : Node} {name : String} (hc : b.Cleared c n x name)

include hc

theorem sound (hb : b.Sound) : c.Sound := (hb.adjustNode n (shrinks_drop b name)).called hc.called

theorem held (hh : b.Held) : c.Held :=
  (hh.adjustNode n (Node.dropName name) fun _ _ => rfl).called hc.called

theorem node? (hn : b.node? n = some x) :
    c.node? n = some (x.dropName name) := by
  rw [hc.called.node?]
  exact node?_adjustNode_self hn _

theorem addressOn (t : TransportId) : c.addressOn n t = b.addressOn n t := by
  rw [hc.called.addressOn]
  exact addressOn_adjustNode b n (shrinks_drop b name).place n t

theorem isLiveNode : c.isLiveNode = b.isLiveNode := by
  rw [hc.called.isLiveNode]
  exact isLiveNode_adjustNode (fun _ _ => rfl) n

theorem isLiveServer : c.isLiveServer = b.isLiveServer := hc.called.isLiveServer

theorem interface? (i : InterfaceId) : c.interface? i = b.interface? i := hc.called.interface? i

theorem later : b.Later c := by
  have hdropped : b.Later (b.adjustNode n (Node.dropName name)) :=
    later_of_values rfl fun _ h => h
  exact hdropped.trans hc.called.later

theorem tenanted (hten : b.Tenanted) : c.Tenanted := by
  intro t a k o ht hr
  rw [hc.isLiveServer] at ht
  rw [hc.isLiveNode]
  exact hten t a k o ht ((hc.registered t a k o).1 hr).1

/-- In a faithful bus a name that is free is not there, and nothing is cleared. -/
theorem faithful (hh : b.Held) (hn : b.node? n = some x)
    (hfree : (Entries.get? name x.interfaces).any b.isLiveInterface = false) (hf : b.Faithful) :
    c.Faithful := by
  have hnone : Entries.get? name x.interfaces = none := by
    cases hk : Entries.get? name x.interfaces with
    | none => rfl
    | some j =>
        rw [hk, Option.any_some, hf.isLiveInterface hh hn hk] at hfree
        cases hfree
  have hsame : b.adjustNode n (Node.dropName name) = b := by
    refine adjustNode_eq_self fun x' hx' => ?_
    obtain rfl : x = x' := Option.some.inj (hn.symm.trans hx')
    exact Node.dropName_eq_self hnone
  exact (hsame.symm ▸ hf).called hc.called

/-- Clearing a name that was there is dropping it, whatever happens to the value then. -/
theorem dropped (hn : b.node? n = some x) (hk : (Entries.get? name x.interfaces).isSome = true)
    {b' : Bus} (hforest : b'.forest = c.forest) (hloopback : ∀ t, b'.loopback? t = c.loopback? t)
    (hlater : b.Later b') : b.Dropped b' n x name where
  node := atNode_of_adjust hn (hforest.trans hc.called.forest) (shrinks_drop b name).place rfl
    hlater
  registered t a k o := by
    rw [registered_congr hloopback, hc.registered]
    simp only [hk, true_and]
  managed t a := by rw [managed?_congr hloopback, hc.managed]

end Cleared

/-! ## Entering a value -/

/-- A value without an owner has no name. -/
theorem Sound.not_named {b : Bus} (hb : b.Sound) {i : InterfaceId} {y : Instance}
    (hi : b.interface? i = some y) (ho : y.owner = none) : ¬b.Named i := by
  intro hnamed
  obtain ⟨n, hn⟩ := hb.owner_of_named hi hnamed
  rw [ho] at hn
  cases hn

/-- A node takes a value that has no name. -/
def enter (b : Bus) (n : NodeId) (name : String) (i : InterfaceId) : Bus :=
  (b.adjustNode n fun x => { x with interfaces := Entries.put name i x.interfaces }).setOwner i
    (some n)

theorem node?_enter (b : Bus) (n : NodeId) (name : String) (i : InterfaceId) (m : NodeId) :
    (b.enter n name i).node? m =
      if m = n then
        (b.node? m).map fun x => { x with interfaces := Entries.put name i x.interfaces }
      else b.node? m :=
  node?_adjustNode b n m _

theorem interface?_enter (b : Bus) (n : NodeId) (name : String) (i j : InterfaceId) :
    (b.enter n name i).interface? j =
      if j = i then (b.interface? j).map fun v => { v with owner := some n } else b.interface? j :=
  interface?_setOwner i j (some n)

theorem owner?_enter {b : Bus} {i : InterfaceId} {y : Instance} (hi : b.interface? i = some y)
    (n : NodeId) (j : InterfaceId) :
    (b.enter n y.interface.name i).owner? j =
      if j = i then some (n, y.interface.name) else b.owner? j := by
  rw [owner?, interface?_enter]
  split
  · next h =>
      rw [h, hi]
      rfl
  · rfl

/-- The one new name is that of the value. -/
theorem has_enter {b : Bus} {n : NodeId} {x : Node} (hn : b.node? n = some x) {name : String}
    (hfree : Entries.get? name x.interfaces = none) (i : InterfaceId) (m : NodeId) (k : String)
    (j : InterfaceId) :
    (b.enter n name i).Has m k j ↔ (m = n ∧ k = name ∧ j = i) ∨ b.Has m k j := by
  unfold Has
  rw [node?_enter]
  by_cases hm : m = n
  · subst hm
    simp only [if_true, hn, Option.map_some, Option.some.injEq, exists_eq_left', true_and]
    by_cases hk : k = name
    · subst hk
      simp [hfree, eq_comm]
    · simp [Entries.get?_put_of_ne hk, hk]
  · simp [hm]

theorem Sound.enter {b : Bus} (hb : b.Sound) (n : NodeId) {i : InterfaceId} {y : Instance}
    (hi : b.interface? i = some y) (ho : y.owner = none) :
    (b.enter n y.interface.name i).Sound := by
  have hnamed := hb.not_named hi ho
  have hnode : ∀ {m x}, (b.enter n y.interface.name i).node? m = some x → ∃ z, b.node? m = some z ∧
      (x = z ∨ m = n ∧ x = { z with interfaces := Entries.put y.interface.name i z.interfaces }) :=
    fun h => Forest.get?_adjust_cases h
  -- a name of a node leads where it led, or it is the new one
  have hentry : ∀ {m x k j}, (b.enter n y.interface.name i).node? m = some x →
      Entries.get? k x.interfaces = some j →
      (∃ z, b.node? m = some z ∧ Entries.get? k z.interfaces = some j) ∨
        (m = n ∧ k = y.interface.name ∧ j = i) := by
    intro m x k j hm hk
    obtain ⟨z, hz, rfl | ⟨rfl, rfl⟩⟩ := hnode hm
    · exact Or.inl ⟨x, hz, hk⟩
    · by_cases hkk : k = y.interface.name
      · subst hkk
        rw [Entries.get?_put_self, Option.some.injEq] at hk
        exact Or.inr ⟨rfl, rfl, hk.symm⟩
      · rw [Entries.get?_put_of_ne hkk] at hk
        exact Or.inl ⟨z, hz, hk⟩
  refine ⟨(hb.orderly.adjustNode n _).setOwner i (some n), hb.forest.adjust n
    ⟨fun _ => rfl, fun _ => rfl, fun _ => rfl⟩, ?_, ?_, ?_, ?_, hb.server_lt, ?_⟩
  · intro m x hm
    obtain ⟨z, hz, rfl | ⟨-, rfl⟩⟩ := hnode hm
    · exact hb.table hz
    · exact Entries.sorted_put (hb.table hz) _ _
  · intro m x k j hm hk
    rcases hentry hm hk with ⟨z, hz, hk⟩ | ⟨-, -, rfl⟩
    · exact hb.entry_lt hz hk
    · exact hb.value_lt hi
  · intro m x k j v hm hk hj
    rw [interface?_enter] at hj
    rcases hentry hm hk with ⟨z, hz, hk⟩ | ⟨rfl, rfl, rfl⟩
    · have hji : j ≠ i := by
        rintro rfl
        exact hnamed ⟨m, z, k, hz, hk⟩
      rw [if_neg hji] at hj
      exact hb.entry hz hk hj
    · rw [if_pos rfl, hi] at hj
      cases hj
      exact ⟨rfl, rfl⟩
  · intro j v hj
    rw [interface?_enter] at hj
    split at hj
    · obtain ⟨w, hw, -⟩ := Option.map_eq_some_iff.1 hj
      exact hb.value_lt hw
    · exact hb.value_lt hj
  · intro m x t hm ht
    obtain ⟨z, hz, rfl | ⟨-, rfl⟩⟩ := hnode hm
    · exact hb.bound_lt hz ht
    · exact hb.bound_lt hz ht

theorem Held.enter {b : Bus} (hh : b.Held) (n : NodeId) (name : String) (i : InterfaceId) :
    (b.enter n name i).Held :=
  (hh.adjustNode n (fun x : Node =>
    { x with interfaces := Entries.put name i x.interfaces }) fun _ _ => rfl).setOwner i (some n)

theorem Faithful.enter {b : Bus} (hf : b.Faithful) {n : NodeId} {x : Node} {i : InterfaceId}
    {y : Instance} (hi : b.interface? i = some y) (ho : y.owner = none) (hn : b.node? n = some x)
    (hfree : Entries.get? y.interface.name x.interfaces = none) :
    (b.enter n y.interface.name i).Faithful := by
  have hloose : b.owner? i = none := by
    rw [owner?_of_interface? hi, ho]
    rfl
  intro m k j
  rw [has_enter hn hfree, owner?_enter hi, hf m k j]
  split
  · next hji =>
      subst hji
      simp only [and_true, hloose, reduceCtorEq, or_false, Option.some.injEq, Prod.mk.injEq]
      exact ⟨fun h => ⟨h.1.symm, h.2.symm⟩, fun h => ⟨h.1.symm, h.2.symm⟩⟩
  · next hji => simp [hji]

/-! ## Attaching -/

/-- A value that believes to be attached is a mistake of the program. -/
theorem attach_of_owner {b : Bus} (h : Host) {i : InterfaceId} {y : Instance} {m : NodeId}
    (hi : b.interface? i = some y) (ho : y.owner = some m) (n : NodeId) :
    b.attach h i n = (.error (.panic ("interface '" ++ y.interface.name ++
      "' is already attached to a node")), b) := by
  simp only [attach, hi, ho, Option.isSome_some, if_true]

/-- A node refuses a name that leads to a live value. -/
theorem attach_of_taken {b : Bus} (h : Host) {i : InterfaceId} {y : Instance} {n : NodeId}
    {x : Node} (hi : b.interface? i = some y) (ho : y.owner = none) (hn : b.node? n = some x)
    (htaken : (Entries.get? y.interface.name x.interfaces).any b.isLiveInterface = true) :
    b.attach h i n = (.error (.error (.duplicate ("interface '" ++ y.interface.name ++
      "' already exists on '" ++ b.forest.path n ++ "'"))), b) := by
  simp only [attach, hi, ho, hn, htaken, Option.isSome_none, Bool.false_eq_true, if_false, if_true]

/-- Attaching under a free name: the name is cleared, and the value enrolled. -/
theorem attach_of_free {b : Bus} (hb : b.Orderly) (h : Host) {i : InterfaceId} {y : Instance}
    {n : NodeId} {x : Node} (hi : b.interface? i = some y) (ho : y.owner = none)
    (hn : b.node? n = some x)
    (hfree : (Entries.get? y.interface.name x.interfaces).any b.isLiveInterface = false) :
    b.attach h i n =
      (((b.cleared h n x y.interface.name).enroll h i n y.interface.name
          (b.transportsOf x)).1.mapError .error,
        ((b.cleared h n x y.interface.name).enroll h i n y.interface.name
          (b.transportsOf x)).2) := attach_eq h hb hi ho hn hfree

theorem enroll_cases (h : Host) (i : InterfaceId) (n : NodeId) (name : String)
    (ts : List TransportId) (b : Bus) :
    ((b.registerEach h n [] (ts.map fun t => (t, name))).1 = .ok () ∧
        b.enroll h i n name ts =
          (.ok (), (b.registerEach h n [] (ts.map fun t => (t, name))).2.enter n name i)) ∨
      ∃ e, (b.registerEach h n [] (ts.map fun t => (t, name))).1 = .error e ∧
        b.enroll h i n name ts =
          (.error e, (b.registerEach h n [] (ts.map fun t => (t, name))).2) := by
  unfold enroll
  rw [registerOnAll_eq, List.map_nil]
  cases b.registerEach h n [] (ts.map fun t => (t, name)) with
  | mk result b' =>
      cases result with
      | ok u => exact Or.inl ⟨rfl, rfl⟩
      | error e => exact Or.inr ⟨e, rfl, rfl⟩

theorem called_registerEach {b : Bus} (hb : b.Orderly) (h : Host) (n : NodeId) (name : String)
    (ts : List TransportId) :
    b.Called (b.registerEach h n [] (ts.map fun t => (t, name))).2 := by
  have hcalled := called_registerOnAll h hb n name [] ts
  rwa [registerOnAll_eq, List.map_nil] at hcalled

section Attach

variable {b : Bus} (hb : b.Sound) (hh : b.Held) (h : Host) {i : InterfaceId} {y : Instance}
  {n : NodeId} {x : Node} (hi : b.interface? i = some y) (ho : y.owner = none)
  (hn : b.node? n = some x)

include hb hn

/-- A value that was accepted is attached. -/
theorem attached_enter (hh : b.Held) {c : Bus} (hc : b.Cleared c n x y.interface.name)
    (hok : (c.registerEach h n [] ((b.transportsOf x).map fun t => (t, y.interface.name))).1 =
      .ok ()) :
    b.Attached ((c.registerEach h n []
      ((b.transportsOf x).map fun t => (t, y.interface.name))).2.enter n y.interface.name i)
        n x y.interface.name i := by
  have hlive : c.isLiveNode n = true := by rw [hc.isLiveNode, hh.isLiveNode hn]
  have haccepts := accepts_registerEach h (hc.sound hb).orderly hlive hok
  generalize (c.registerEach h n []
    ((b.transportsOf x).map fun t => (t, y.interface.name))).2 = r at haccepts
  have hmem : ∀ {t k}, (t, k) ∈ (b.transportsOf x).map (fun t => (t, y.interface.name)) ↔
      t ∈ b.transportsOf x ∧ k = y.interface.name := by
    intro t k
    simp [eq_comm]
  have hforest : (r.enter n y.interface.name i).forest = b.forest.adjust n fun x =>
      { x with interfaces :=
        Entries.put y.interface.name i (Entries.drop y.interface.name x.interfaces) } := by
    calc (r.enter n y.interface.name i).forest
        = c.forest.adjust n fun x =>
            { x with interfaces := Entries.put y.interface.name i x.interfaces } := by
          rw [← haccepts.restores.called.forest]
          rfl
      _ = (b.forest.adjust n (Node.dropName y.interface.name)).adjust n fun x =>
            { x with interfaces := Entries.put y.interface.name i x.interfaces } := by
          rw [hc.called.forest]
          rfl
      _ = _ := by
          unfold Forest.adjust
          rw [Entries.adjust_adjust]
          rfl
  have hlater : b.Later (r.enter n y.interface.name i) := by
    refine (hc.later.trans haccepts.restores.called.later).trans
      (later_of_values rfl fun j hj => ?_)
    rwa [enter, isLiveInterface_setOwner] at hj
  have hstays : ∀ {t a k o}, c.Registered t a k o → b.Registered t a k o :=
    fun hr => ((hc.registered _ _ _ _).1 hr).1
  refine ⟨atNode_of_adjust hn hforest ⟨fun _ => rfl, fun _ => rfl, fun _ => rfl⟩ ?_ hlater,
    ?_, ?_, ?_, ?_⟩
  · simp only [Node.holdings, Entries.put_drop (hb.table hn)]
  · intro t a k o hr
    rcases haccepts.restores.only hr with hr | ⟨m, rfl, hmk, ha, rfl⟩
    · exact Or.inl (hstays hr)
    · obtain ⟨ht, rfl⟩ := hmem.1 hmk
      rw [hc.addressOn] at ha
      exact Or.inr ⟨(at_iff hn).2 ⟨ht, ha⟩, rfl, rfl⟩
  · intro t a k m hr hm hother
    refine haccepts.restores.keeps ((hc.registered t a k _).2 ⟨hr, ?_⟩) ?_
    · exact fun hcleared => hother hcleared.2
    · rw [hc.isLiveNode, hm]
  · intro t a hat hl
    obtain ⟨ht, ha⟩ := (at_iff hn).1 hat
    refine haccepts.complete (hmem.2 ⟨ht, rfl⟩) (by rw [hc.addressOn, ha]) ?_
    rw [hc.called.loopback?_isSome]
    exact hl
  · intro t a
    exact (haccepts.managed t a).trans (hc.managed t a)

include hi ho

/-- **Attaching a value** under a name that is free: it is attached, or nothing remains but that the
name was cleared. -/
theorem attach_spec (hh : b.Held)
    (hfree : (Entries.get? y.interface.name x.interfaces).any b.isLiveInterface = false) :
    ((b.attach h i n).1 = .ok () ∧ b.Keeps (b.attach h i n).2 ∧
        b.Attached (b.attach h i n).2 n x y.interface.name i) ∨
      ∃ e, (b.attach h i n).1 = .error (.error e) ∧
        (b.cleared h n x y.interface.name).Called (b.attach h i n).2 ∧
        (b.Tenanted → ∀ t, (b.attach h i n).2.transport? t =
          (b.cleared h n x y.interface.name).transport? t) := by
  have hc := cleared_spec hb.orderly h hn y.interface.name
  have heq := attach_of_free hb.orderly h hi ho hn hfree
  generalize b.cleared h n x y.interface.name = c at hc heq
  have hsound := hc.sound hb
  have hheld := hc.held hh
  have hcalled := called_registerEach hsound.orderly h n y.interface.name
    (b.transportsOf x)
  rw [heq]
  rcases enroll_cases h i n y.interface.name (b.transportsOf x) c with
    ⟨hok, henroll⟩ | ⟨e, herr, henroll⟩
  · rw [henroll]
    have hr := hsound.called hcalled
    have hri := (hcalled.interface? i).trans ((hc.interface? i).trans hi)
    refine Or.inl ⟨rfl, ⟨hr.enter n hri ho, (hheld.called hcalled).enter n _ i, fun hf => ?_⟩,
      attached_enter hb h hn hh hc hok⟩
    refine ((hc.faithful hh hn hfree hf).called hcalled).enter hri ho
      ((hcalled.node? n).trans (hc.node? hn)) ?_
    exact Entries.get?_drop_self (hb.table hn) _
  · rw [henroll]
    refine Or.inr ⟨e, rfl, hcalled, fun hten t => ?_⟩
    refine transport?_registerEach h hsound.orderly (hc.tenanted hten) ?_ ?_ herr t
    · rw [hc.isLiveNode, hh.isLiveNode hn]
    · intro d hd
      obtain ⟨u, hu, rfl⟩ := List.mem_map.1 hd
      rw [hc.isLiveServer]
      exact live_of_mem_transportsOf hu

end Attach

/-! ## A node takes a loose value -/

section Loose

variable {b b' : Bus} {es : Entries InterfaceId Instance}
  (hlive : isLiveInterface { b with interfaces := es } = b.isLiveInterface)

include hlive

theorem Later.of_values (h : Later { b with interfaces := es } b') : b.Later b' :=
  ⟨h.servers, h.roots, h.kinds, fun hj => hlive ▸ h.values hj⟩

theorem LaterBelow.of_values (h : LaterBelow { b with interfaces := es } b') : b.LaterBelow b' :=
  ⟨h.servers, h.roots, h.kinds, fun hi hj => hlive ▸ h.values hi hj⟩

theorem AtNode.of_values {n : NodeId} {x x' : Node}
    (h : AtNode { b with interfaces := es } b' n x x') : b.AtNode b' n x x' :=
  ⟨h.before, h.after, h.path, fun m hm => ⟨(h.others m hm).holdings, (h.others m hm).path⟩,
    h.later.of_values hlive⟩

/-- What interface values there are besides those that are live says nothing about an effect. -/
theorem Attached.of_values {n : NodeId} {x : Node} {name : String} {i : InterfaceId}
    (h : Attached { b with interfaces := es } b' n x name i) : b.Attached b' n x name i :=
  ⟨h.node.of_values hlive, h.only, h.keeps, h.complete, h.managed⟩

theorem Dropped.of_values {n : NodeId} {x : Node} {name : String}
    (h : Dropped { b with interfaces := es } b' n x name) : b.Dropped b' n x name :=
  ⟨h.node.of_values hlive, h.registered, h.managed⟩

theorem Quiet.of_values (h : Quiet { b with interfaces := es } b') : b.Quiet b' :=
  ⟨h.later.of_values hlive, fun hx => ⟨(h.old hx).holdings, (h.old hx).path⟩, h.new, h.registered,
    h.managed⟩

end Loose

/-- A value is handed over to a node. -/
def handed (b : Bus) (i : InterfaceId) : Bus :=
  b.adjustInterface i fun v => { v with isLoose := false }

theorem makeInterface_of_ok {b : Bus} {h : Host} {i : InterfaceId} {n : NodeId}
    (hok : ((b.handed i).attach h i n).1 = .ok ()) :
    b.makeInterface h i n = (.ok (), ((b.handed i).attach h i n).2) := by
  rw [makeInterface, ← handed]
  cases hres : (b.handed i).attach h i n with
  | mk result b' =>
      rw [hres] at hok
      cases hok
      rfl

theorem makeInterface_of_error {b : Bus} {h : Host} {i : InterfaceId} {n : NodeId}
    {e : Failure BusError} (herr : ((b.handed i).attach h i n).1 = .error e) :
    b.makeInterface h i n =
      (.error e, ((b.handed i).attach h i n).2.releaseInterface h i) := by
  rw [makeInterface, ← handed]
  cases hres : (b.handed i).attach h i n with
  | mk result b' =>
      rw [hres] at herr
      cases herr
      rfl

section Make

variable {b : Bus} (hb : b.Sound) (hh : b.Held) (levels : Nat) {i : InterfaceId} {y : Instance}
  {n : NodeId} {x : Node} (hi : b.interface? i = some y) (hn : b.node? n = some x)

theorem Sound.handed (hb : b.Sound) (i : InterfaceId) : (b.handed i).Sound :=
  hb.adjustInterface i fun _ _ => ⟨rfl, rfl⟩

theorem interface?_handed (i j : InterfaceId) : (b.handed i).interface? j =
    if j = i then (b.interface? j).map fun v => { v with isLoose := false }
    else b.interface? j := interface?_adjustInterface b i j _

theorem isLiveInterface_handed (i : InterfaceId) :
    (b.handed i).isLiveInterface = b.isLiveInterface :=
  isLiveInterface_adjustInterface fun _ => rfl

theorem Held.handed (hh : b.Held) (i : InterfaceId) : (b.handed i).Held where
  nodes := hh.nodes
  values {j v} hj := by
    rw [interface?_handed] at hj
    split at hj
    · obtain ⟨w, hw, rfl⟩ := Option.map_eq_some_iff.1 hj
      have hpos := hh.values hw
      exact hpos
    · exact hh.values hj

theorem Faithful.handed (hf : b.Faithful) (i : InterfaceId) : (b.handed i).Faithful :=
  hf.adjustInterface i fun _ => ⟨rfl, rfl⟩

theorem Keeps.of_handed {b' : Bus} {i : InterfaceId} (hk : (b.handed i).Keeps b') : b.Keeps b' :=
  ⟨hk.sound, hk.held, fun hf => hk.faithful (hf.handed i)⟩

include hb hi hn

/-- What remains of a refusal: the name was cleared, and the value is gone. -/
theorem effect_of_refused (hh : b.Held) (ho : y.owner = none) {c b' : Bus}
    (hc : ((b.handed i).cleared (.ofLevels (levels + 1)) n x y.interface.name).Called c)
    (htransports : ∀ t, c.transport? t =
      ((b.handed i).cleared (.ofLevels (levels + 1)) n x y.interface.name).transport? t)
    (hb' : b' = c.releaseInterface (.ofLevels (levels + 1)) i) : b.Effect b' := by
  have hcleared := cleared_spec (hb.handed i).orderly (.ofLevels (levels + 1))
    (show (b.handed i).node? n = some x from hn) y.interface.name
  have hsame : ¬(Entries.get? y.interface.name x.interfaces).isSome = true →
      (b.handed i).cleared (.ofLevels (levels + 1)) n x y.interface.name = b.handed i :=
    fun hk => if_neg hk
  generalize (b.handed i).cleared (.ofLevels (levels + 1)) n x y.interface.name = c₀ at *
  have hci : c.interface? i = some { y with isLoose := false } := by
    rw [hc.interface?, hcleared.interface?, interface?_handed, if_pos rfl, hi]
    rfl
  have hsound := (hcleared.sound (hb.handed i)).called hc
  have hheld := (hcleared.held (hh.handed i)).called hc
  obtain ⟨hforest, hservers, -, hvalues⟩ := releaseInterface_of_loose levels hsound.orderly hci ho
  rw [← hb'] at hforest hservers hvalues
  have hloopback : ∀ t, b'.loopback? t = c₀.loopback? t := by
    intro t
    rw [loopback?_congr hservers, loopback?, loopback?, htransports]
  have hlater : (b.handed i).Later b' := by
    refine (hcleared.later.trans hc.later).trans (later_of_values hservers fun j hj => ?_)
    by_cases hji : j = i
    · subst hji
      exact hheld.isLiveInterface hci
    · unfold isLiveInterface at hj ⊢
      rwa [hvalues j hji] at hj
  have hlive := isLiveInterface_handed (b := b) i
  by_cases hk : (Entries.get? y.interface.name x.interfaces).isSome = true
  · have hdropped := hcleared.dropped hn hk (hforest.trans hc.forest) hloopback hlater
    exact .dropped (Dropped.of_values hlive hdropped)
  · -- there was no name to clear
    rw [hsame hk] at hc hloopback
    exact .quiet (Quiet.of_values hlive (quiet_of_same (hforest.trans hc.forest) hloopback
      hlater.below))

/-- **A node takes a loose value**: this has an effect, and keeps a bus sound. -/
theorem makeInterface_spec (hh : b.Held) :
    b.Keeps (b.makeInterface (.ofLevels (levels + 1)) i n).2 ∧
      (b.Tenanted → b.Effect (b.makeInterface (.ofLevels (levels + 1)) i n).2) := by
  have hb₁ := hb.handed i
  have hh₁ := hh.handed i
  have hi₁ : (b.handed i).interface? i = some { y with isLoose := false } := by
    rw [interface?_handed, if_pos rfl, hi]
    rfl
  have hn₁ : (b.handed i).node? n = some x := hn
  have hlive := isLiveInterface_handed (b := b) i
  -- a value that the node refuses at once is let go
  have hrefused : ∀ {e}, (b.handed i).attach (.ofLevels (levels + 1)) i n = (.error e, b.handed i) →
      b.Keeps (b.makeInterface (.ofLevels (levels + 1)) i n).2 ∧
        (b.Tenanted → b.Effect (b.makeInterface (.ofLevels (levels + 1)) i n).2) := by
    intro e he
    obtain ⟨hkeeps, heffect⟩ := releaseInterface_spec levels hb₁ hh₁ hi₁
    rw [makeInterface_of_error (congrArg Prod.fst he), he]
    refine ⟨hkeeps.of_handed, fun _ => ?_⟩
    rcases heffect with ⟨m, z, name, hdropped⟩ | hquiet
    · exact .dropped (Dropped.of_values hlive hdropped)
    · exact .quiet (Quiet.of_values hlive hquiet)
  cases ho : y.owner with
  | some m => exact hrefused (attach_of_owner (.ofLevels (levels + 1)) hi₁ ho n)
  | none =>
      cases hfree : (Entries.get? y.interface.name x.interfaces).any b.isLiveInterface with
      | true =>
          rw [← hlive] at hfree
          exact hrefused (attach_of_taken (.ofLevels (levels + 1)) hi₁ ho hn₁ hfree)
      | false =>
          rw [← hlive] at hfree
          rcases attach_spec hb₁ (.ofLevels (levels + 1)) hi₁ ho hn₁ hh₁ hfree with
            ⟨hok, hkeeps, hattached⟩ | ⟨e, herr, hcalled, htransports⟩
          · rw [makeInterface_of_ok hok]
            exact ⟨hkeeps.of_handed, fun _ => .attached (Attached.of_values hlive hattached)⟩
          · -- a transport refused: what remains is the cleared name, and then the value is let go
            have hcleared := cleared_spec hb₁.orderly (.ofLevels (levels + 1)) hn₁
              y.interface.name
            have hci := (hcalled.interface? i).trans ((hcleared.interface? i).trans hi₁)
            obtain ⟨hkeeps, -⟩ := releaseInterface_spec levels
              ((hcleared.sound hb₁).called hcalled) ((hcleared.held hh₁).called hcalled) hci
            rw [makeInterface_of_error herr]
            refine ⟨⟨hkeeps.sound, hkeeps.held, fun hf => hkeeps.faithful ?_⟩, fun hten => ?_⟩
            · exact (hcleared.faithful hh₁ hn₁ hfree (hf.handed i)).called hcalled
            · exact effect_of_refused hb levels hi hn hh ho hcalled (htransports hten) rfl

end Make

end ObjectBus.Bus
