import ObjectBus.Proofs.Effect

/-!
# Effects on interface values

Dropping a name from a node and destroying a value. Both drop the name on all transports of the
node; a value that is destroyed does so only where its name still is its own, or leads to nothing
(`Bus.Clearing`).
-/

set_option autoImplicit false

namespace ObjectBus.Bus

/-- A value is not named any more once the name is dropped at its owner. -/
theorem not_named_of_drop {b : Bus} (hb : b.Sound) {i : InterfaceId} {y : Instance} {n : NodeId}
    (hi : b.interface? i = some y) (ho : y.owner = some n) :
    ¬(b.adjustNode n (Node.dropName y.interface.name)).Named i := by
  rintro ⟨m, x, k, hm, hk⟩
  obtain ⟨z, hz, rfl | ⟨rfl, rfl⟩⟩ := Forest.get?_adjust_cases hm
  · obtain ⟨rfl, howner⟩ := hb.entry hz hk hi
    obtain rfl : n = m := Option.some.inj (ho.symm.trans howner)
    have hdropped := node?_adjustNode_self hz (Node.dropName y.interface.name)
    have hx := Option.some.inj (hm.symm.trans hdropped)
    rw [hx, Node.interfaces_dropName, Entries.get?_drop_self (hb.table hz)] at hk
    cases hk
  · rw [Node.interfaces_dropName, Entries.get?_drop (hb.table hz)] at hk
    split at hk
    · cases hk
    · next hne => exact hne (hb.entry hz hk hi).1.symm

/-- A name was dropped from a node, and from its transports, before or afterwards. -/
theorem dropped_of_withdraws {b b₁ c b' : Bus} {n : NodeId} {x : Node} {name : String}
    (hn : b.node? n = some x)
    (hw : Withdraws (fun t a k => t ∈ b.transportsOf x ∧ b₁.addressOn n t = some a ∧ k = name)
      (fun _ _ => False) b₁ c)
    (hloopback : ∀ t, b₁.loopback? t = b.loopback? t)
    (haddress : ∀ t, b₁.addressOn n t = b.addressOn n t)
    (hforest' : b'.forest = b.forest.adjust n (Node.dropName name))
    (hloopback' : ∀ t, b'.loopback? t = c.loopback? t) (hlater : b.Later b') :
    b.Dropped b' n x name := by
  refine ⟨atNode_of_adjust hn hforest' (shrinks_drop b name).place rfl hlater, ?_, ?_⟩
  · intro t a k o
    rw [registered_congr hloopback', hw.registered, registered_congr hloopback, haddress,
      at_iff hn, and_assoc]
  · intro t a
    rw [managed?_congr hloopback', ← managed?_congr hloopback]
    refine Option.ext fun o => ?_
    simp [hw.managed]

/-- A name was dropped from a node, and then from its transports. -/
theorem dropped_of_called {b b₁ c : Bus} (horderly : b₁.Orderly) (h : Host) {n : NodeId}
    {x : Node} {name : String} (hn : b.node? n = some x)
    (hforest : b₁.forest = b.forest.adjust n (Node.dropName name))
    (htransports : b₁.transports = b.transports)
    (hc : c = (b.transportsOf x).foldl (fun b t => b.dropOf h n name t) b₁)
    {b' : Bus} (hlater : b.Later b') (hforest' : b'.forest = c.forest)
    (htransports' : b'.transports = c.transports) : b.Dropped b' n x name := by
  have hw := withdraws_dropOf horderly h n name (b.transportsOf x)
  rw [← hc] at hw
  have haddress : ∀ t, b₁.addressOn n t = b.addressOn n t := by
    intro t
    refine addressOn_congr ?_ ?_
    · rw [hforest]
      exact Forest.path_adjust b.forest n (shrinks_drop b name).place n
    · rw [rootOf, rootOf, transport?, transport?, htransports]
  exact dropped_of_withdraws hn hw (loopback?_congr htransports) haddress
    (hforest'.trans (hw.called.forest.trans hforest)) (loopback?_congr htransports') hlater

/-- **Dropping a name from a node.** -/
theorem detach_spec {b : Bus} (hb : b.Sound) (hh : b.Held) (h : Host) {n : NodeId} {x : Node}
    {name : String} {i : InterfaceId} (hn : b.node? n = some x)
    (hk : Entries.get? name x.interfaces = some i) :
    b.Keeps (b.detach h n name).2 ∧ b.Dropped (b.detach h n name).2 n x name := by
  have hb₁ := hb.adjustNode n (shrinks_drop b name)
  have hh₁ := hh.adjustNode n (Node.dropName name) fun _ _ => rfl
  have hservers : (b.adjustNode n (Node.dropName name)).transportsOf x = b.transportsOf x := rfl
  have hcalled := called_foldl_dropOf h hb₁.orderly n name (b.transportsOf x)
  have hdropped : b.Later (b.adjustNode n (Node.dropName name)) :=
    later_of_values rfl fun _ h => h
  have hlater : b.Later ((b.transportsOf x).foldl (fun b t => b.dropOf h n name t)
      (b.adjustNode n (Node.dropName name))) :=
    hdropped.trans hcalled.later
  simp only [detach_eq h hb.orderly hn hk, hservers]
  generalize hc : (b.transportsOf x).foldl (fun b t => b.dropOf h n name t)
    (b.adjustNode n (Node.dropName name)) = c at *
  split
  · next hlive =>
      obtain ⟨y, hy, -⟩ := exists_of_isLiveInterface hlive
      have hy' : b.interface? i = some y := (hcalled.interface? i).symm.trans hy
      obtain ⟨rfl, ho⟩ := hb.entry hn hk hy'
      refine ⟨⟨(hb₁.called hcalled).adjustInterface i fun hnamed => ?_,
          (hh₁.called hcalled).setOwner i none, fun hf => ?_⟩,
        dropped_of_called hb₁.orderly h hn rfl rfl hc.symm ?_ rfl rfl⟩
      · refine absurd ?_ (not_named_of_drop hb hy' ho)
        obtain ⟨m, z, k, hm, hkm⟩ := hnamed
        exact ⟨m, z, k, (hcalled.node? m).symm.trans hm, hkm⟩
      · refine hf.leave (i := i) ⟨x, hn, hk⟩ (fun m k j => ?_) fun j => ?_
        · exact (hcalled.has m k j).trans (has_adjustNode_drop hb n y.interface.name m k j)
        · rw [owner?_setOwner_none, hcalled.owner?]
          rfl
      · refine hlater.trans (later_of_values rfl fun j hj => ?_)
        rwa [isLiveInterface_setOwner] at hj
  · next hdead =>
      refine ⟨⟨hb₁.called hcalled, hh₁.called hcalled, fun hf => ?_⟩,
        dropped_of_called hb₁.orderly h hn rfl rfl hc.symm hlater rfl rfl⟩
      rw [hcalled.isLiveInterface] at hdead
      exact absurd (hf.isLiveInterface hh hn hk) hdead

/-! ## Destroying values -/

/-- The bus without an interface value. -/
def forget (b : Bus) (i : InterfaceId) : Bus :=
  { b with interfaces := Entries.drop i b.interfaces }

theorem interface?_forget {b : Bus} (hb : b.Orderly) (i j : InterfaceId) :
    (b.forget i).interface? j = if j = i then none else b.interface? j :=
  Entries.get?_drop hb.interfaces i j

theorem isLiveInterface_forget {b : Bus} (hb : b.Orderly) (i j : InterfaceId) :
    (b.forget i).isLiveInterface j = true ↔ j ≠ i ∧ b.isLiveInterface j = true := by
  unfold isLiveInterface
  rw [interface?_forget hb]
  by_cases hji : j = i
  · simp [hji]
  · simp [hji]

theorem forget_adjustInterface (b : Bus) (i : InterfaceId) (change : Instance → Instance) :
    (b.adjustInterface i change).forget i = b.forget i := by
  unfold forget adjustInterface
  rw [Entries.drop_adjust_self]

theorem Held.forget {b : Bus} (hb : b.Held) (ho : b.Orderly) (i : InterfaceId) :
    (b.forget i).Held where
  nodes := hb.nodes
  values {j y} hj := by
    rw [interface?_forget ho] at hj
    split at hj
    · cases hj
    · exact hb.values hj

theorem later_forget {b : Bus} (hb : b.Orderly) (i : InterfaceId) : b.Later (b.forget i) :=
  later_of_values rfl fun j hj => ((isLiveInterface_forget hb i j).1 hj).2

/-- A value that has no name goes unnoticed. -/
theorem quiet_of_same {b b' : Bus} (hforest : b'.forest = b.forest)
    (hloopback : ∀ t, b'.loopback? t = b.loopback? t) (hlater : b.LaterBelow b') : b.Quiet b' where
  later := hlater
  old _ := sameAt_of_forest hforest _
  new {m x'} hm hm' := by
    rw [node?, hforest] at hm'
    rw [node?, hm'] at hm
    cases hm
  registered := registered_congr hloopback
  managed := managed?_congr hloopback

/-- **Destroying `i` clears a name**: `i` believes to have it at a node, and there it leads to `i` or
to nothing. -/
structure Clearing (b : Bus) (i : InterfaceId) (n : NodeId) (x : Node) (name : String) : Prop where
  node : b.node? n = some x
  value : ∃ y, b.interface? i = some y ∧ y.owner = some n ∧ y.interface.name = name
  entry : ∃ j, Entries.get? name x.interfaces = some j ∧
    (j = i ∨ b.isLiveInterface j = false)

/-- What letting the last handle of a value go does: either a name was dropped
that the value clears, or nothing has happened. -/
structure Released (b b' : Bus) (i : InterfaceId) : Prop where
  keeps : b.Keeps b'
  effect : (∃ n x name, b.Clearing i n x name ∧ b.Dropped b' n x name) ∨
    ((∀ n x name, ¬b.Clearing i n x name) ∧ b.Quiet b')

theorem owner?_forget {b : Bus} (hb : b.Orderly) (i j : InterfaceId) :
    (b.forget i).owner? j = if j = i then none else b.owner? j := by
  unfold owner?
  rw [interface?_forget hb]
  split <;> rfl

theorem released_forget {b : Bus} (hb : b.Sound) (hh : b.Held) {i : InterfaceId}
    (hc : ∀ n x name, ¬b.Clearing i n x name) : b.Released (b.forget i) i := by
  refine ⟨⟨hb.dropValue i, hh.forget hb.orderly i, fun hf => ?_⟩,
    Or.inr ⟨hc, quiet_of_same rfl (fun _ => rfl) (later_forget hb.orderly i).below⟩⟩
  refine hf.of_loose (i := i) rfl (Option.eq_none_iff_forall_ne_some.2 fun nk hown => ?_)
    (owner?_forget hb.orderly i)
  -- a value with an owner has its name there
  obtain ⟨x, hx, hk⟩ := (hf nk.1 nk.2 i).2 hown
  exact hc nk.1 x nk.2 ⟨hx, owner?_eq_some.1 hown, i, hk, Or.inl rfl⟩

theorem Called.forget {b b' : Bus} (hc : b.Called b') (hb : b.Orderly) (i : InterfaceId) :
    (b.forget i).Called (b'.forget i) where
  forest := hc.forest
  interfaces := congrArg (Entries.drop i) hc.interfaces
  next := hc.next
  alike := hc.alike
  orderly _ :=
    have hb' := hc.orderly hb
    ⟨hb'.nodes, Entries.sorted_drop hb'.interfaces i, hb'.transports, hb'.loopbacks, hb'.hookless⟩

section Release

variable {b b₀ : Bus} (hb : b.Sound) (h : Host) {i : InterfaceId} {y y₀ : Instance}
  (hi : b.interface? i = some y) (hi₀ : b₀.interface? i = some y₀) (howner : y₀.owner = y.owner)
  (hname : y₀.interface.name = y.interface.name) (horderly : b₀.Orderly)
  (hforget : b₀.forget i = b.forget i)

include hb horderly hforget

/-- Two buses that are the same but for one value have the same live values but for it. -/
theorem isLiveInterface_of_forget {j : InterfaceId} (hji : j ≠ i) :
    b₀.isLiveInterface j = b.isLiveInterface j := by
  refine Bool.eq_iff_iff.2 ?_
  have h₀ := isLiveInterface_forget horderly i j
  have h₁ := isLiveInterface_forget hb.orderly i j
  rw [hforget] at h₀
  simp only [hji, ne_eq, not_false_eq_true, true_and] at h₀ h₁
  exact h₀.symm.trans h₁

include hi hi₀ howner hname

/-- A value that clears no name goes unnoticed. -/
theorem forget_release_of_not_clearing (hc : ∀ n x name, ¬b.Clearing i n x name) :
    (b₀.release h i).forget i = b.forget i := by
  have hclear : (b₀.setOwner i none).forget i = b.forget i :=
    (forget_adjustInterface b₀ i fun v => { v with owner := none }).trans hforget
  have hforest : b₀.forest = b.forest := by
    have heq := congrArg Bus.forest hforget
    exact heq
  have hnode : ∀ m, (b₀.setOwner i none).node? m = b.node? m := by
    intro m
    rw [node?, node?, ← hforest]
    rfl
  unfold release
  simp only [hi₀, howner, hname]
  cases ho : y.owner with
  | none => exact hforget
  | some n =>
      simp only [hnode]
      cases hn : b.node? n with
      | none => exact hclear
      | some x =>
          simp only
          cases hk : Entries.get? y.interface.name x.interfaces with
          | none => exact hclear
          | some j =>
              -- another live value has the name
              have hj := hc n x y.interface.name
              have hkeeps : ¬(j = i ∨ b.isLiveInterface j = false) :=
                fun hfree => hj ⟨hn, ⟨y, hi, ho, rfl⟩, j, hk, hfree⟩
              rw [not_or] at hkeeps
              have hlive := isLiveInterface_of_forget hb horderly hforget hkeeps.1
              have hno : (b₀.setOwner i none).clearsName i j = false := by
                unfold clearsName
                rw [isLiveInterface_setOwner, hlive]
                simpa using hkeeps
              simp only [hno, Bool.false_eq_true, if_false]
              exact hclear

/-- A value that clears a name drops it from its node. -/
theorem dropped_release (hh : b.Held) {n : NodeId} {x : Node} {name : String}
    (hc : b.Clearing i n x name) :
    b.Keeps ((b₀.release h i).forget i) ∧ b.Dropped ((b₀.release h i).forget i) n x name := by
  obtain ⟨hn, ⟨y', hi', ho, rfl⟩, j, hk, hfree⟩ := hc
  obtain rfl := Option.some.inj (hi.symm.trans hi')
  have hforest : b₀.forest = b.forest := by
    have heq := congrArg Bus.forest hforget
    exact heq
  have hservers : b₀.transports = b.transports := by
    have heq := congrArg Bus.transports hforget
    exact heq
  have hn₀ : b₀.node? n = some x := by rw [node?, hforest]; exact hn
  have hclears : (b₀.setOwner i none).clearsName i j = true := by
    unfold clearsName
    rw [isLiveInterface_setOwner]
    rcases hfree with rfl | hdead
    · simp
    · by_cases hji : j = i
      · simp [hji]
      · simp [isLiveInterface_of_forget hb horderly hforget hji, hdead]
  have htransports : b₀.transportsOf x = b.transportsOf x := by
    unfold transportsOf isLiveServer
    rw [hservers]
  have heq : b₀.release h i =
      (b.transportsOf x).foldl (fun b t => b.dropOf h n y.interface.name t)
        ((b₀.setOwner i none).adjustNode n (Node.dropName y.interface.name)) := by
    rw [← htransports, ← hname]
    exact release_eq h horderly hi₀ (howner.trans ho) hn₀ (hname ▸ hk) hclears
  -- but for the value itself, the name is dropped from the node as it was
  have hsame : ((b₀.setOwner i none).adjustNode n (Node.dropName y.interface.name)).forget i =
      (b.adjustNode n (Node.dropName y.interface.name)).forget i := by
    have hclear : (b₀.setOwner i none).forget i = b.forget i :=
      (forget_adjustInterface b₀ i fun v => { v with owner := none }).trans hforget
    exact congrArg (fun c : Bus => c.adjustNode n (Node.dropName y.interface.name)) hclear
  have hsound := (hb.adjustNode n (shrinks_drop b y.interface.name)).dropValue i
  have hheld := (hh.adjustNode n (Node.dropName y.interface.name) fun _ _ => rfl).forget
      (hb.orderly.adjustNode n _) i
  have hlater : b.Later ((b.adjustNode n (Node.dropName y.interface.name)).forget i) :=
    later_of_values rfl fun j hj => ((isLiveInterface_forget hb.orderly i j).1 hj).2
  have ho₁ : ((b₀.setOwner i none).adjustNode n (Node.dropName y.interface.name)).Orderly :=
    (horderly.setOwner i none).adjustNode n _
  have hcalled := (called_foldl_dropOf h ho₁ n y.interface.name (b.transportsOf x)).forget ho₁ i
  rw [hsame] at hcalled
  rw [heq]
  refine ⟨⟨hsound.called hcalled, hheld.called hcalled, fun hf => Faithful.called ?_ hcalled⟩,
    dropped_of_called ho₁ h hn (by rw [← hforest]; rfl) hservers rfl
      (hlater.trans hcalled.later) rfl rfl⟩
  have hnamed := (hf n y.interface.name i).2 (owner?_eq_some.2 ⟨y, hi, ho, rfl⟩)
  refine hf.leave hnamed (has_adjustNode_drop hb n y.interface.name) fun l => ?_
  exact owner?_forget (hb.orderly.adjustNode n _) i l

end Release

/-- **Destroying a value** whose handles have changed before. -/
theorem destroyInterface_spec {b : Bus} (hb : b.Sound) (hh : b.Held) (h : Host) {i : InterfaceId}
    {y : Instance} (hi : b.interface? i = some y) {change : Instance → Instance}
    (hc : (change y).owner = y.owner ∧ (change y).interface.name = y.interface.name) :
    b.Released ((b.adjustInterface i change).destroyInterface h i) i := by
  have hi₀ : (b.adjustInterface i change).interface? i = some (change y) := by
    rw [interface?_adjustInterface, if_pos rfl, hi]
    rfl
  have horderly : (b.adjustInterface i change).Orderly :=
    ⟨hb.orderly.nodes, Entries.sorted_adjust hb.orderly.interfaces i change, hb.orderly.transports,
      hb.orderly.loopbacks, hb.orderly.hookless⟩
  have hforget := forget_adjustInterface b i change
  show b.Released (((b.adjustInterface i change).release h i).forget i) i
  by_cases hclear : ∃ n x name, b.Clearing i n x name
  · obtain ⟨n, x, name, hclear⟩ := hclear
    obtain ⟨hkeeps, hdropped⟩ :=
      dropped_release hb h hi hi₀ hc.1 hc.2 horderly hforget hh hclear
    exact ⟨hkeeps, Or.inl ⟨n, x, name, hclear, hdropped⟩⟩
  · simp only [not_exists] at hclear
    rw [forget_release_of_not_clearing hb h hi hi₀ hc.1 hc.2 horderly hforget hclear]
    exact released_forget hb hh hclear

/-! ## Letting a value go -/

section Release

variable {b : Bus} (levels : Nat) {i : InterfaceId} {y : Instance}

theorem isLiveInterface_adjustInterface {change : Instance → Instance}
    (hc : ∀ v, (change v).handles = v.handles) :
    (b.adjustInterface i change).isLiveInterface = b.isLiveInterface := by
  funext j
  unfold isLiveInterface
  rw [interface?_adjustInterface]
  by_cases hji : j = i
  · rw [if_pos hji]
    cases b.interface? j with
    | none => rfl
    | some v => simp [hc]
  · rw [if_neg hji]

/-- The last handle of a value is let go. -/
theorem releaseInterface_last (hb : b.Sound) (hh : b.Held) (hi : b.interface? i = some y)
    (hlast : y.handles = 1) :
    b.Released (b.releaseInterface (.ofLevels (levels + 1)) i) i := by
  have hdead : (b.adjustInterface i fun v =>
      { v with handles := v.handles - 1 }).isLiveInterface i = false := by
    unfold isLiveInterface
    rw [interface?_adjustInterface, if_pos rfl, hi]
    simp [hlast]
  simp only [releaseInterface, hdead, Bool.false_eq_true, if_false]
  exact destroyInterface_spec hb hh (.ofLevels levels) hi ⟨rfl, rfl⟩

/-- A handle of a value is let go, and there are others. -/
theorem releaseInterface_more (hb : b.Sound) (hh : b.Held) (hi : b.interface? i = some y)
    (hmore : y.handles ≠ 1) :
    b.Keeps (b.releaseInterface (.ofLevels (levels + 1)) i) ∧
      b.Quiet (b.releaseInterface (.ofLevels (levels + 1)) i) := by
  have hpos := hh.values hi
  have hlive : (b.adjustInterface i fun v =>
      { v with handles := v.handles - 1 }).isLiveInterface i = true := by
    unfold isLiveInterface
    rw [interface?_adjustInterface, if_pos rfl, hi]
    simp only [Option.map_some, decide_eq_true_eq]
    omega
  simp only [releaseInterface, hlive, if_true]
  refine ⟨⟨hb.adjustInterface i fun _ _ => ⟨rfl, rfl⟩, ⟨hh.nodes, ?_⟩,
      fun hf => hf.adjustInterface i fun _ => ⟨rfl, rfl⟩⟩,
    quiet_of_same rfl (fun _ => rfl) (laterBelow_of_values rfl ?_)⟩
  · intro j v hj
    rw [interface?_adjustInterface] at hj
    split at hj
    · next hji =>
        subst hji
        rw [hi] at hj
        cases hj
        simp only
        omega
    · exact hh.values hj
  · intro j _ hj
    by_cases hji : j = i
    · subst hji
      exact hh.isLiveInterface hi
    · unfold isLiveInterface at hj ⊢
      rwa [interface?_adjustInterface, if_neg hji] at hj

/-- **Letting a value go** drops a name or does nothing, and keeps a bus sound. -/
theorem releaseInterface_spec (hb : b.Sound) (hh : b.Held) (hi : b.interface? i = some y) :
    b.Keeps (b.releaseInterface (.ofLevels (levels + 1)) i) ∧
      ((∃ n x name, b.Dropped (b.releaseInterface (.ofLevels (levels + 1)) i) n x name) ∨
        b.Quiet (b.releaseInterface (.ofLevels (levels + 1)) i)) := by
  by_cases hlast : y.handles = 1
  · have hreleased := releaseInterface_last levels hb hh hi hlast
    refine ⟨hreleased.keeps, ?_⟩
    rcases hreleased.effect with ⟨n, x, name, -, hdropped⟩ | ⟨-, hquiet⟩
    · exact Or.inl ⟨n, x, name, hdropped⟩
    · exact Or.inr hquiet
  · obtain ⟨hkeeps, hquiet⟩ := releaseInterface_more levels hb hh hi hlast
    exact ⟨hkeeps, Or.inr hquiet⟩

/-- A value without an owner is forgotten, or has a handle less. -/
theorem releaseInterface_cases_of_loose (hi : b.interface? i = some y) (ho : y.owner = none) :
    b.releaseInterface (.ofLevels (levels + 1)) i = b.forget i ∨
      b.releaseInterface (.ofLevels (levels + 1)) i =
        b.adjustInterface i fun v => { v with handles := v.handles - 1 } := by
  have hi' : (b.adjustInterface i fun v => { v with handles := v.handles - 1 }).interface? i =
      some { y with handles := y.handles - 1 } := by
    rw [interface?_adjustInterface, if_pos rfl, hi]
    rfl
  have hdestroy : (b.adjustInterface i fun v =>
      { v with handles := v.handles - 1 }).destroyInterface (.ofLevels levels) i = b.forget i := by
    rw [← forget_adjustInterface b i fun v => { v with handles := v.handles - 1 }]
    simp only [destroyInterface, release, hi', ho]
    rfl
  unfold releaseInterface
  dsimp only
  split
  · exact Or.inr rfl
  · exact Or.inl hdestroy

/-- A value without an owner goes unnoticed. -/
theorem releaseInterface_of_loose (hb : b.Orderly) (hi : b.interface? i = some y)
    (ho : y.owner = none) :
    (b.releaseInterface (.ofLevels (levels + 1)) i).forest = b.forest ∧
      (b.releaseInterface (.ofLevels (levels + 1)) i).transports = b.transports ∧
      (b.releaseInterface (.ofLevels (levels + 1)) i).owner? i = none ∧
      ∀ j, j ≠ i → (b.releaseInterface (.ofLevels (levels + 1)) i).interface? j =
        b.interface? j := by
  rcases releaseInterface_cases_of_loose levels hi ho with heq | heq
  · rw [heq]
    refine ⟨rfl, rfl, ?_, fun j hji => ?_⟩
    · rw [owner?_forget hb, if_pos rfl]
    · rw [interface?_forget hb, if_neg hji]
  · rw [heq]
    refine ⟨rfl, rfl, ?_, fun j hji => ?_⟩
    · rw [owner?, interface?_adjustInterface, if_pos rfl, hi, Option.map_some, Option.bind_some, ho,
        Option.map_none]
    · rw [interface?_adjustInterface, if_neg hji]

end Release

end ObjectBus.Bus
