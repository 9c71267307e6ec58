import ObjectBus.Proofs.Callbacks.Owners

/-!
# Operations, while transports call back

Every operation keeps the owners of names, if the host does (`Host.Lawful`): whatever commands a hook
runs, and whatever is destroyed on the way. Most of it is one step after the other. An operation that
changes names and owners does so in two places, with calls in between; it then counts on what the calls
have left alone (`Bus.Follows`).
-/

set_option autoImplicit false

namespace ObjectBus

/-- **A lawful host** keeps the owners of names, whatever it is asked to do. -/
structure Host.Lawful (h : Host) : Prop where
  perform : ∀ commands b, Bus.Advances b (h.perform commands b)
  destroyNode : ∀ n b, Bus.Advances b (h.destroyNode n b)
  destroyInterface : ∀ i b, Bus.Advances b (h.destroyInterface i b)

theorem Host.lawful_inert : Host.inert.Lawful :=
  ⟨fun _ => Bus.Advances.refl, fun _ => Bus.Advances.refl, fun _ => Bus.Advances.refl⟩

/-- Calling a transport keeps the owners of names. -/
def Host.Lawful.calls {h : Host} (hh : h.Lawful) : CallLaw h where
  Holds := Bus.Advances
  refl := Bus.Advances.refl
  trans := Bus.Advances.trans
  aside hforest hvalues _ hnext := Bus.advances_of_same hforest hvalues hnext
  perform := hh.perform

namespace Bus

/-! ## Handles -/

section Handles

variable {h : Host} (hh : h.Lawful) (b : Bus)

theorem advances_holdNode (n : NodeId) : b.Advances (b.holdNode n) :=
  advances_adjustNode b n _ fun _ => rfl

include hh

theorem advances_releaseNode (n : NodeId) : b.Advances (b.releaseNode h n) := by
  unfold releaseNode
  have hless : b.Advances (b.adjustNode n fun node => { node with handles := node.handles - 1 }) :=
    advances_adjustNode b n _ fun _ => rfl
  dsimp only
  split
  · exact hless
  · exact hless.trans (hh.destroyNode n _)

/-- A node gets a name, and the one that had it loses it. -/
theorem advances_nameNode (name : String) (n : NodeId) : b.Advances (b.nameNode h name n) := by
  have hput : b.Advances { b with desk := { b.desk with nodes := Entries.put name n b.desk.nodes } } :=
    advances_of_same rfl rfl (Nat.le_refl _)
  unfold nameNode
  dsimp only
  split
  · exact hput
  · exact hput.trans (advances_releaseNode hh _ _)

end Handles

/-! ## Attaching -/

/-- The bus later on, for an operation that started with `b`. -/
theorem Advances.after {leaving : NodeId → Prop} {b c d : Bus} (h : c.Advances d)
    (hc : c.Owned leaving ∧ b.Follows c) : d.Owned leaving ∧ b.Follows d := by
  obtain ⟨hd, hf⟩ := h leaving hc.1
  exact ⟨hd, hc.2.trans hf⟩

section Attach

variable {h : Host} (hh : h.Lawful)

/-- A loose value that is handed over is in a handle, and has no name yet. -/
theorem advances_handed {b : Bus} {i : InterfaceId} {y : Instance} (hi : b.interface? i = some y)
    (hloose : y.isLoose = true) : b.Advances (b.handed i) := by
  refine fun leaving hb => ⟨⟨hb.nodes, hb.tables, Entries.sorted_adjust hb.values i _, ?_,
    hb.entry_lt, ?_⟩, Nat.le_refl _, ?_⟩
  · intro j v hj
    rw [interface?_handed] at hj
    split at hj
    · obtain ⟨w, hw, -⟩ := Option.map_eq_some_iff.1 hj
      exact hb.value_lt hw
    · exact hb.value_lt hj
  · intro n k j v hk hj
    have hk : b.Has n k j := hk
    rw [interface?_handed] at hj
    split at hj
    · next hji => exact absurd (hji ▸ hk) (hb.not_has_of_loose hi hloose n k)
    · exact hb.entry hk hj
  · intro j v _ hj
    rw [interface?_handed] at hj
    split at hj
    · next hji =>
        rw [hji, hi] at hj
        cases hj
        have hnot : y.isLoose ≠ false := by simp [hloose]
        exact ⟨y, hji ▸ hi, ⟨rfl, fun _ => rfl, fun hl => absurd hl hnot⟩, fun _ _ _ hk => hk⟩
    · exact ⟨v, hj, Instance.Becomes.of_badge rfl, fun _ _ _ hk => hk⟩

theorem has_of_enter {b : Bus} {n m : NodeId} {name k : String} {i j : InterfaceId}
    (hk : (b.enter n name i).Has m k j) : (m = n ∧ k = name ∧ j = i) ∨ b.Has m k j := by
  obtain ⟨x, hx, hk⟩ := hk
  rw [node?_enter] at hx
  split at hx
  · next hm =>
      obtain ⟨z, hz, rfl⟩ := Option.map_eq_some_iff.1 hx
      by_cases hkk : k = name
      · have hk : Entries.get? k (Entries.put name i z.interfaces) = some j := hk
        rw [hkk, Entries.get?_put_self, Option.some.injEq] at hk
        exact Or.inl ⟨hm, hkk, hk.symm⟩
      · have hk : Entries.get? k (Entries.put name i z.interfaces) = some j := hk
        rw [Entries.get?_put_of_ne hkk] at hk
        exact Or.inr ⟨z, hz, hk⟩
  · exact Or.inr ⟨x, hx, hk⟩

/-- **A node takes a value** that has no name. -/
theorem Owned.enter {leaving : NodeId → Prop} {b : Bus} (hb : b.Owned leaving) (n : NodeId)
    {name : String} {i : InterfaceId} (hlt : i < b.next)
    (hi : ∀ y, b.interface? i = some y → y.interface.name = name ∧ y.isLoose = false ∧
      ∀ m k, ¬b.Has m k i) : (b.enter n name i).Owned leaving := by
  refine ⟨Entries.sorted_adjust hb.nodes n _, ?_, Entries.sorted_adjust hb.values i _, ?_, ?_, ?_⟩
  · intro m x hx
    rw [node?_enter] at hx
    split at hx
    · obtain ⟨z, hz, rfl⟩ := Option.map_eq_some_iff.1 hx
      exact Entries.sorted_put (hb.tables hz) name i
    · exact hb.tables hx
  · intro j v hj
    rw [interface?_enter] at hj
    split at hj
    · obtain ⟨w, hw, -⟩ := Option.map_eq_some_iff.1 hj
      exact hb.value_lt hw
    · exact hb.value_lt hj
  · intro m k j hk
    rcases has_of_enter hk with ⟨-, -, rfl⟩ | hk
    · exact hlt
    · exact hb.entry_lt hk
  · intro m k j v hk hj
    rw [interface?_enter] at hj
    split at hj
    · next hji =>
        subst hji
        obtain ⟨w, hw, rfl⟩ := Option.map_eq_some_iff.1 hj
        obtain ⟨hname, hheld, hno⟩ := hi w hw
        rcases has_of_enter hk with ⟨rfl, rfl, -⟩ | hk
        · exact ⟨hname, hheld, Or.inl rfl⟩
        · exact absurd hk (hno m k)
    · next hji =>
        rcases has_of_enter hk with ⟨-, -, heq⟩ | hk
        · exact absurd heq hji
        · exact hb.entry hk hj

/-- A value that was loose may come to a node. -/
theorem Follows.enter {b c : Bus} (hf : b.Follows c) {i : InterfaceId} {y : Instance}
    (hi : b.interface? i = some y) (hloose : y.isLoose = true) (n : NodeId) (name : String) :
    b.Follows (c.enter n name i) := by
  refine ⟨hf.next, fun {j v} hlt hj => ?_⟩
  rw [interface?_enter] at hj
  split at hj
  · next hji =>
      subst hji
      obtain ⟨w, hw, rfl⟩ := Option.map_eq_some_iff.1 hj
      obtain ⟨z, hz, hbecomes, -⟩ := hf.value hlt hw
      obtain rfl := Option.some.inj (hi.symm.trans hz)
      have hnot : y.isLoose ≠ false := by simp [hloose]
      exact ⟨y, hi, ⟨hbecomes.name, fun hl => absurd hl hnot, fun hl => absurd hl hnot⟩,
        fun hl => absurd hl hnot⟩
  · next hji =>
      obtain ⟨z, hz, hbecomes, hhas⟩ := hf.value hlt hj
      refine ⟨z, hz, hbecomes, fun hl m k hk => ?_⟩
      rcases has_of_enter hk with ⟨-, -, heq⟩ | hk
      · exact absurd heq hji
      · exact hhas hl m k hk

include hh

theorem advances_clearName (b : Bus) (n : NodeId) (name : String) (ts : List TransportId) :
    b.Advances (b.clearName h n name ts) :=
  Advances.trans (hh.calls.foldl_dropOf b n name ts) (advances_dropName _ n name)

/-- **Registering a value that was loose** and entering it at its node. -/
theorem advances_enroll {b c : Bus} {i : InterfaceId} {y : Instance} (hi : b.interface? i = some y)
    (hloose : y.isLoose = true) (hc : (b.handed i).Advances c) (n : NodeId)
    (ts : List TransportId) : b.Advances (c.enroll h i n y.interface.name ts).2 := by
  have hreg := hc.trans (hh.calls.registerOnAll n y.interface.name ts [] c)
  unfold enroll
  cases hres : c.registerOnAll h n y.interface.name [] ts with
  | mk result d =>
      rw [hres] at hreg
      cases result with
      | error e => exact (advances_handed hi hloose).trans hreg
      | ok u =>
          intro leaving hb
          obtain ⟨hhanded, hf⟩ := advances_handed hi hloose leaving hb
          obtain ⟨hd, hsince⟩ := hreg leaving hhanded
          have hlt : i < (b.handed i).next := hb.value_lt hi
          refine ⟨hd.enter n (Nat.lt_of_lt_of_le hlt hsince.next) fun v hv => ?_,
            (hf.trans hsince).enter hi hloose n _⟩
          -- the value was in a handle before the calls, and so it has come to no name
          obtain ⟨w, hw, hbecomes, hhas⟩ := hsince.value hlt hv
          have hw' : (b.handed i).interface? i = some { y with isLoose := false } := by
            rw [interface?_handed, if_pos rfl, hi]
            rfl
          obtain rfl := Option.some.inj (hw'.symm.trans hw)
          exact ⟨hbecomes.name, hbecomes.loose rfl, fun m k hk =>
            hb.not_has_of_loose hi hloose m k (hhas rfl m k hk)⟩

/-- **Attaching a value that was loose.** -/
theorem advances_attach {b : Bus} {i : InterfaceId} {y : Instance} (hi : b.interface? i = some y)
    (hloose : y.isLoose = true) (n : NodeId) : b.Advances ((b.handed i).attach h i n).2 := by
  have hhanded := advances_handed hi hloose
  have hi₁ : (b.handed i).interface? i = some { y with isLoose := false } := by
    rw [interface?_handed, if_pos rfl, hi]
    rfl
  simp only [attach, hi₁]
  split
  · exact hhanded
  · split
    · exact hhanded
    · next node hn =>
        split
        · exact hhanded
        · refine Advances.trans ?_ (hh.calls.releaseServers _ _)
          have hheld := hh.calls.holdServers (b.handed i) ((b.handed i).transportsOf node)
          split
          · exact advances_enroll hh hi hloose (hheld.trans (advances_clearName hh _ n _ _)) n _
          · exact advances_enroll hh hi hloose hheld n _

end Attach

/-! ## Detaching -/

section Detach

variable {h : Host} (hh : h.Lawful)

include hh

/-- **Dropping a name**: when the calls are over, no name leads to the value. -/
theorem advances_detach (b : Bus) (n : NodeId) (name : String) :
    b.Advances (b.detach h n name).2 := by
  intro leaving hb
  unfold detach
  split
  · exact ⟨hb, Follows.refl b⟩
  · next node hn =>
      split
      · exact ⟨hb, Follows.refl b⟩
      · next i hk =>
          refine (hh.calls.releaseServers _ _).after ?_
          have hdropped := advances_dropName b n name
          have hcalled : (b.adjustNode n (Node.dropName name)).Advances
              ((b.transportsOf node).foldl (fun b t => b.dropOf h n name t)
                ((b.adjustNode n (Node.dropName name)).holdServers (b.transportsOf node))) :=
            (hh.calls.holdServers _ _).trans (hh.calls.foldl_dropOf _ n name _)
          obtain ⟨hc, hf⟩ := (hdropped.trans hcalled) leaving hb
          split
          · next hlive =>
              refine ⟨hc.setOwner_none fun m l hl => ?_, hf.trans (follows_setOwner_none _ i)⟩
              -- the value was in a handle of this node, so its other names are of nodes that leave
              have hhas : b.Has n name i := ⟨node, hn, hk⟩
              have hsince := (hcalled leaving (hdropped leaving hb).1).2
              obtain ⟨y', hy', -⟩ := exists_of_isLiveInterface hlive
              obtain ⟨y, hy, -, hback⟩ := hsince.value (hb.entry_lt hhas) hy'
              have hy : b.interface? i = some y := hy
              have hl := hback (hb.entry hhas hy).2.1 m l hl
              obtain ⟨hl, hne⟩ := hb.has_dropName hl
              exact (hb.eq_or_leaving hy hhas hl).resolve_left hne
          · exact ⟨hc, hf⟩

omit hh in
/-- The one name that a value may have at a node that stays is the one that it believes to have. -/
theorem Owned.leaving_of_ne {leaving : NodeId → Prop} {b : Bus} (hb : b.Owned leaving)
    {i : InterfaceId} {y : Instance} {n m : NodeId} {l : String} (hi : b.interface? i = some y)
    (ho : y.owner = some n) (hl : b.Has m l i) (hne : ¬(m = n ∧ l = y.interface.name)) :
    leaving m := by
  obtain ⟨hname, -, howner | ⟨hleaving, -⟩⟩ := hb.entry hl hi
  · exact absurd ⟨(Option.some.inj (ho.symm.trans howner)).symm, hname.symm⟩ hne
  · exact hleaving

omit hh in
/-- A value gives up its node, which has no name for it. -/
theorem Owned.give_up {leaving : NodeId → Prop} {b : Bus} (hb : b.Owned leaving) {i : InterfaceId}
    {y : Instance} {n : NodeId} (hi : b.interface? i = some y) (ho : y.owner = some n)
    (hno : ¬b.Has n y.interface.name i) :
    (b.setOwner i none).Owned leaving ∧ b.Follows (b.setOwner i none) := by
  refine ⟨hb.setOwner_none fun m l hl => hb.leaving_of_ne hi ho hl ?_, follows_setOwner_none b i⟩
  rintro ⟨rfl, rfl⟩
  exact hno hl

/-- **Taking a value off its node**: it gives up its node, and its name goes with it. -/
theorem advances_release (b : Bus) (i : InterfaceId) : b.Advances (b.release h i) := by
  intro leaving hb
  unfold release
  split
  · exact ⟨hb, Follows.refl b⟩
  · next y hi =>
      split
      · exact ⟨hb, Follows.refl b⟩
      · next n ho =>
          have hnode : (b.setOwner i none).node? n = b.node? n := rfl
          dsimp only
          rw [hnode]
          split
          · next hn =>
              refine hb.give_up hi ho ?_
              rintro ⟨z, hz, -⟩
              rw [hn] at hz
              cases hz
          · next node hn =>
              split
              · next hk =>
                  refine hb.give_up hi ho ?_
                  rintro ⟨z, hz, hj⟩
                  rw [Option.some.inj (hn.symm.trans hz), hj] at hk
                  cases hk
              · next j hj =>
                  split
                  · -- the name is dropped first, and then the value has none
                    obtain ⟨hdropped, hf⟩ := advances_dropName b n y.interface.name leaving hb
                    have hgiven := hdropped.give_up (i := i) hi ho fun hk =>
                      (hb.has_dropName hk).2 ⟨rfl, rfl⟩
                    refine Advances.after ((hh.calls.holdServers _ _).trans
                      (Advances.foldl (fun c t => ?_) _ _)) ⟨hgiven.1, hf.trans hgiven.2⟩
                    exact Advances.trans (hh.calls.dropOf c n y.interface.name t)
                      (hh.calls.releaseServer _ t)
                  · next hkeeps =>
                      refine hb.give_up hi ho ?_
                      rintro ⟨z, hz, hl⟩
                      rw [Option.some.inj (hn.symm.trans hz)] at hj
                      obtain rfl := Option.some.inj (hj.symm.trans hl)
                      exact hkeeps (by simp [clearsName])

theorem advances_destroyInterface (b : Bus) (i : InterfaceId) :
    b.Advances (b.destroyInterface h i) :=
  (advances_release hh b i).trans (advances_dropValue _ i)

end Detach

end Bus

/-- **Commands keep the owners of names.** -/
def Host.Lawful.commands {h : Host} (hh : h.Lawful) : CommandLaw h where
  toCallLaw := hh.calls
  node b n _ hminor := Bus.advances_adjustNode b n _ fun x => by rw [hminor x]
  count b i _ := Bus.advances_adjustInterface b i _ fun _ => rfl
  edit {b i _} _ _ _ := Bus.advances_adjustInterface b i _ fun _ => rfl
  newValue {b v} _ := Bus.advances_newInstance b v
  moveOut {b i _} _ := (Bus.advances_dropValue b i).trans (Bus.advances_newInstance _ _)
  destroyInterface := hh.destroyInterface
  attach hi hloose n := Bus.advances_attach hh hi hloose n
  detach := Bus.advances_detach hh
  held {b _ n} _ _ hwork :=
    ((Bus.advances_holdNode b n).trans hwork).trans (Bus.advances_releaseNode hh _ n)
  plant b id name parent servers _ :=
    (Bus.advances_grow b name parent servers).trans (Bus.advances_nameNode hh _ id _)
  share {b _ n} _ id := (Bus.advances_holdNode b n).trans (Bus.advances_nameNode hh _ id n)
  unname {b name n} _ := by
    have hdropped : b.Advances
        { b with desk := { b.desk with nodes := Entries.drop name b.desk.nodes } } :=
      Bus.advances_of_same rfl rfl (Nat.le_refl _)
    exact hdropped.trans (Bus.advances_releaseNode hh _ n)

namespace Bus

/-! ## Destroying nodes -/

section Destroy

variable {h : Host} (hh : h.Lawful)

include hh

theorem advances_pin (b : Bus) (m : Relocation) : b.Advances (b.pin m) := by
  unfold pin
  refine Advances.trans ?_ (hh.commands.holdAll _ m.servers m.interfaces)
  split
  · exact advances_holdNode b m.node
  · exact Advances.refl b

theorem advances_unpin (b : Bus) (m : Relocation) : b.Advances (b.unpin h m) := by
  unfold unpin
  refine Advances.trans ?_ (hh.commands.releaseAll _ m.servers m.interfaces)
  split
  · exact advances_releaseNode hh b m.node
  · exact Advances.refl b

omit hh in
/-- Values leave a node that is leaving. -/
theorem Owned.foldl_setOwner_none {leaving : NodeId → Prop} {b : Bus} (hb : b.Owned leaving)
    {is : List InterfaceId} (his : ∀ i ∈ is, ∀ n k, b.Has n k i → leaving n) :
    (is.foldl (fun b i => b.setOwner i none) b).Owned leaving ∧
      b.Follows (is.foldl (fun b i => b.setOwner i none) b) := by
  induction is generalizing b with
  | nil => exact ⟨hb, Follows.refl b⟩
  | cons i is ih =>
      obtain ⟨howned, hf⟩ := ih (hb.setOwner_none (his i List.mem_cons_self))
        fun j hj n k hk => his j (List.mem_cons_of_mem i hj) n k hk
      exact ⟨howned, (follows_setOwner_none b i).trans hf⟩

omit hh in
theorem forest_holdInterfaces (is : List InterfaceId) (b : Bus) :
    (b.holdInterfaces is).forest = b.forest := by
  induction is generalizing b with
  | nil => rfl
  | cons i is ih => exact ih (b.holdInterface i)

/-- **What a node has goes with it**: the values that its names led to before the calls have at most
names of nodes that leave. -/
theorem Owned.disowned {leaving : NodeId → Prop} {b c : Bus} (hb : b.Owned leaving)
    (hc : b.Advances c) {n : NodeId} {x : Node} (hn : b.node? n = some x) {held : List InterfaceId}
    (hheld : (Entries.values x.interfaces).filter c.isLiveInterface = held) :
    (held.foldl (fun b i => b.setOwner i none) (c.holdInterfaces held)).Owned
        (fun m => m = n ∨ leaving m) ∧
      b.Follows (held.foldl (fun b i => b.setOwner i none) (c.holdInterfaces held)) := by
  obtain ⟨hown, hf⟩ := (hc.trans (hh.commands.holdInterfaces c held)) leaving hb
  have hleaving : ∀ i ∈ held, ∀ m l, (c.holdInterfaces held).Has m l i → m = n ∨ leaving m := by
    intro i hi m l hl
    rw [← hheld] at hi
    obtain ⟨hmem, hlive⟩ := List.mem_filter.1 hi
    obtain ⟨k, hk⟩ := (Entries.mem_values_iff (hb.tables hn)).1 hmem
    have hhas : b.Has n k i := ⟨x, hn, hk⟩
    have hl : c.Has m l i := by simpa only [Has, node?, forest_holdInterfaces] using hl
    -- the value was in a handle of this node, and has come to no name since
    obtain ⟨y', hy', -⟩ := exists_of_isLiveInterface hlive
    obtain ⟨y, hy, -, hback⟩ := (hc leaving hb).2.value (hb.entry_lt hhas) hy'
    exact (hb.eq_or_leaving hy hhas (hback (hb.entry hhas hy).2.1 m l hl)).imp And.left id
  obtain ⟨howned, hsince⟩ := (hown.mono fun _ => Or.inr).foldl_setOwner_none hleaving
  exact ⟨howned, hf.trans hsince⟩

/-- **Destroying a node.** -/
theorem advances_destroyNode (b : Bus) (n : NodeId) : b.Advances (b.destroyNode h n) := by
  intro leaving hb
  unfold destroyNode
  split
  · exact ⟨hb, Follows.refl b⟩
  · next x hn =>
      have hleave := hh.calls.leaveAll b n (Entries.keys x.interfaces) x.managing.isSome
        (b.transportsOf x)
      dsimp only
      generalize ((b.transportsOf x).foldl (fun b t => b.leave h n (Entries.keys x.interfaces)
        x.managing.isSome t) (b.holdServers (b.transportsOf x))) = b₁ at hleave ⊢
      generalize hheld : (Entries.values x.interfaces).filter b₁.isLiveInterface = held
      obtain ⟨hb₂, hf₂⟩ := hb.disowned hh hleave hn hheld
      generalize held.foldl (fun b i => b.setOwner i none) (b₁.holdInterfaces held) = b₂
        at hb₂ hf₂ ⊢
      generalize (if x.parent.isSome = true then (b₂.forest.descendants n).filterMap b₂.snapshot
        else []) = moved
      -- the node counts as leaving until it is out of the forest
      have hmove := (Advances.foldl (advances_pin hh) moved b₂).trans
        (Advances.foldl hh.calls.withdraw moved _)
      obtain ⟨hb₃, hf₃⟩ := hmove.after ⟨hb₂, hf₂⟩
      obtain ⟨hb₄, hf₄⟩ := hb₃.uproot x.name x.parent x.children
      refine Advances.after ?_ ⟨hb₄, hf₃.trans hf₄⟩
      exact (((Advances.foldl hh.calls.restore moved _).trans
        (Advances.foldl (advances_unpin hh) moved _)).trans
          (hh.commands.releaseInterfaces _ held)).trans (hh.calls.releaseServers _ _)

end Destroy

end Bus

end ObjectBus
