import ObjectBus.Proofs.Effect.Operations
import ObjectBus.Proofs.Share.Changes

/-!
# Values among others

Attaching an interface value and taking it off its node, for the values and nodes of a party: the
answers are the same among others as alone, and the two buses remain alike. Transports are called only
for nodes that are bound to them, so it is enough that all nodes stand at addresses of the share
(`Share.Houses`).
-/

set_option autoImplicit false

namespace ObjectBus

namespace Share.Houses

variable {p : Share} {c c' : Bus} {t : TransportId} (h : p.Houses c t)

include h

theorem called (hc : c.Called c') : p.Houses c' t := by
  rintro n a ⟨x, hn, ht, ha⟩
  rw [hc.transportsOf] at ht
  exact h n a ⟨x, (hc.node? n).symm.trans hn, ht, (hc.addressOn n t).symm.trans ha⟩

/-- A node that is bound to no other transports than before. -/
theorem adjustNode (n : NodeId) {f : Node → Node} (hf : Forest.KeepsPlace f)
    (hservers : ∀ x, ∀ u ∈ (f x).servers, u ∈ x.servers) : p.Houses (c.adjustNode n f) t := by
  rintro m a ⟨x, hm, ht, ha⟩
  rw [Bus.addressOn_adjustNode c n hf] at ha
  rw [Bus.node?_adjustNode] at hm
  split at hm
  · obtain ⟨y, hy, rfl⟩ := Option.map_eq_some_iff.1 hm
    obtain ⟨hmem, hlive⟩ := List.mem_filter.1 ht
    exact h m a ⟨y, hy, List.mem_filter.2 ⟨hservers y t hmem, hlive⟩, ha⟩
  · exact h m a ⟨x, hm, ht, ha⟩

theorem dropName (n : NodeId) (name : String) :
    p.Houses (c.adjustNode n (Node.dropName name)) t :=
  h.adjustNode n ⟨fun _ => rfl, fun _ => rfl, fun _ => rfl⟩ fun _ _ hu => hu

/-- A value that is enrolled takes its node nowhere. -/
theorem enroll (hc : c.Orderly) (on : Host) (i : InterfaceId) (n : NodeId) (name : String)
    (ts : List TransportId) : p.Houses (c.enroll on i n name ts).2 t := by
  have hcalled := Bus.called_registerEach hc on n name ts
  rcases Bus.enroll_cases on i n name ts c with ⟨-, heq⟩ | ⟨e, -, heq⟩
  · rw [heq]
    exact (h.called hcalled).adjustNode n
      (f := fun x => { x with interfaces := Entries.put name i x.interfaces })
      ⟨fun _ => rfl, fun _ => rfl, fun _ => rfl⟩ fun _ _ hu => hu
  · rw [heq]
    exact h.called hcalled

end Share.Houses

theorem Share.Covers.adjustNode {p : Share} {c : Bus} {t : TransportId} {n : NodeId}
    (h : p.Covers c t n) (m : NodeId) {f : Node → Node} (hf : Forest.KeepsPlace f) :
    p.Covers (c.adjustNode m f) t n := fun a ha =>
  h a ((Bus.addressOn_adjustNode c m hf n t).symm.trans ha)

theorem Share.Covers.dropName {p : Share} {c : Bus} {t : TransportId} {n : NodeId}
    (h : p.Covers c t n) (m : NodeId) (name : String) :
    p.Covers (c.adjustNode m (Node.dropName name)) t n :=
  h.adjustNode m ⟨fun _ => rfl, fun _ => rfl, fun _ => rfl⟩

namespace Bus.Embeds

variable {p : Share} {t : TransportId} {rest c b : Bus} (E : Embeds p t rest c b)
  (hown : p.Houses c t) (h : Host)

include E

/-! ## Values leave -/

/-- A name is cleared: it leaves the node, then the transports of the node, or the other way round. -/
theorem dropName_dropOf {n : NodeId} {x : Node} (hn : c.node? n = some x)
    (hcover : t ∈ c.transportsOf x → p.Covers c t n) (name : String) :
    Embeds p t rest
      ((c.transportsOf x).foldl (fun c u => c.dropOf h n name u)
        (c.adjustNode n (Node.dropName name)))
      ((b.transportsOf (p.node x)).foldl (fun b u => b.dropOf h (p.nodeId n) name u)
        (b.adjustNode (p.nodeId n) (Node.dropName name))) := by
  rw [E.transportsOf hn]
  exact (E.dropName n name).foldl_dropOf h (fun u hu => E.eq_of_mem_transportsOf hn hu)
    (fun ht => (hcover ht).dropName n name) name

theorem clearsName (i j : InterfaceId) :
    b.clearsName (p.valueId i) (p.valueId j) = c.clearsName i j := by
  rw [Bus.clearsName, Bus.clearsName, E.isLiveInterface]
  congr 1
  exact Bool.eq_iff_iff.2 (by simp [p.valueId_injective.eq_iff])

include hown

/-- **A value is taken off its node.** -/
theorem release (i : InterfaceId) :
    Embeds p t rest (c.release h i) (b.release h (p.valueId i)) := by
  cases hi : c.interface? i with
  | none =>
      simp only [Bus.release, hi, E.interface?_none hi]
      exact E
  | some y =>
      have hi' := E.interface?_some hi
      cases ho : y.owner with
      | none =>
          simp only [Bus.release, hi, hi', ho, p.owner_none ho]
          exact E
      | some n =>
          have ho' := p.owner_some ho
          have hname : (p.value y).interface.name = y.interface.name := rfl
          have E' := E.setOwner i none
          cases hn : (c.setOwner i none).node? n with
          | none =>
              have hn' : (b.setOwner (p.valueId i) none).node? (p.nodeId n) = none :=
                E'.node?_none hn
              simp only [Bus.release, hi, hi', ho, ho', hn, hn']
              exact E'
          | some x =>
              have hn' : (b.setOwner (p.valueId i) none).node? (p.nodeId n) = some (p.node x) :=
                E'.node?_some hn
              cases hj : Entries.get? y.interface.name x.interfaces with
              | none =>
                  simp only [Bus.release, hi, hi', ho, ho', hn, hn', hname, hj, p.get?_none hj]
                  exact E'
              | some j =>
                  have hj' := p.get?_some hj
                  have hclears : (b.setOwner (p.valueId i) none).clearsName (p.valueId i)
                    (p.valueId j) = (c.setOwner i none).clearsName i j := E'.clearsName i j
                  by_cases hc : (c.setOwner i none).clearsName i j = true
                  · rw [release_eq h E.alone hi ho hn hj hc,
                      release_eq h E.among hi' ho' hn' hj' (hclears.trans hc)]
                    exact E'.dropName_dropOf h hn (fun ht => hown.covers hn ht) y.interface.name
                  · -- another value has the name now
                    rw [Bool.not_eq_true] at hc
                    simp only [Bus.release, hi, hi', ho, ho', hn, hn', hname, hj, hj', hclears, hc,
                      Bool.false_eq_true, if_false]
                    exact E'

/-- **A handle of a value is let go**, and with the last one the value. -/
theorem releaseInterface (levels : Nat) (i : InterfaceId) :
    Embeds p t rest (c.releaseInterface (.ofLevels (levels + 1)) i)
      (b.releaseInterface (.ofLevels (levels + 1)) (p.valueId i)) := by
  have E' : Embeds p t rest (c.adjustInterface i fun y => { y with handles := y.handles - 1 })
      (b.adjustInterface (p.valueId i) fun y => { y with handles := y.handles - 1 }) :=
    E.adjustInterface i fun _ => rfl
  have hown' : p.Houses (c.adjustInterface i fun y => { y with handles := y.handles - 1 }) t := hown
  simp only [Bus.releaseInterface, E'.isLiveInterface]
  split
  · exact E'
  · exact (E'.release hown' (.ofLevels levels) i).forget i

/-- **A node drops a name.** -/
theorem detach (n : NodeId) (name : String) :
    (b.detach h (p.nodeId n) name).1 = (c.detach h n name).1 ∧
      Embeds p t rest (c.detach h n name).2 (b.detach h (p.nodeId n) name).2 := by
  cases hn : c.node? n with
  | none =>
      simp only [Bus.detach, hn, E.node?_none hn]
      exact ⟨trivial, E⟩
  | some x =>
      have hn' := E.node?_some hn
      cases hi : Entries.get? name x.interfaces with
      | none =>
          simp only [Bus.detach, hn, hn', hi, p.get?_none hi]
          exact ⟨trivial, E⟩
      | some i =>
          have E' := E.dropName_dropOf h hn (fun ht => hown.covers hn ht) name
          have hservers : (b.adjustNode (p.nodeId n) (Node.dropName name)).transportsOf
            (p.node x) = b.transportsOf (p.node x) := rfl
          have hservers' : (c.adjustNode n (Node.dropName name)).transportsOf x =
            c.transportsOf x := rfl
          rw [detach_eq h E.alone hn hi, detach_eq h E.among hn' (p.get?_some hi)]
          simp only [hservers, hservers', E'.isLiveInterface, true_and]
          split
          · exact E'.setOwner i none
          · exact E'

/-! ## Values come -/

/-- A name that leads to nothing is cleared. -/
theorem cleared {n : NodeId} {x : Node} (hn : c.node? n = some x) (name : String) :
    Embeds p t rest (c.cleared h n x name) (b.cleared h (p.nodeId n) (p.node x) name) := by
  have hsome : (Entries.get? name (p.node x).interfaces).isSome =
      (Entries.get? name x.interfaces).isSome := by
    rw [p.get?_interfaces, Option.isSome_map]
  simp only [Bus.cleared, hsome]
  split
  · simp only [clearName, E.transportsOf hn]
    exact (E.foldl_dropOf h (fun u hu => E.eq_of_mem_transportsOf hn hu)
      (fun ht => hown.covers hn ht) name).dropName n name
  · exact E

omit hown in
/-- A name is registered on the transports of its node, and entered there. -/
theorem enroll {n : NodeId} {ts : List TransportId} (hts : ∀ u ∈ ts, u = t)
    (hn : t ∈ ts → p.Covers c t n) (i : InterfaceId) (name : String) :
    (b.enroll h (p.valueId i) (p.nodeId n) name ts).1 = (c.enroll h i n name ts).1 ∧
      Embeds p t rest (c.enroll h i n name ts).2
        (b.enroll h (p.valueId i) (p.nodeId n) name ts).2 := by
  have hreg : (b.registerEach h (p.nodeId n) [] (ts.map fun u => (u, name))).1 =
        (c.registerEach h n [] (ts.map fun u => (u, name))).1 ∧
      Embeds p t rest (c.registerEach h n [] (ts.map fun u => (u, name))).2
        (b.registerEach h (p.nodeId n) [] (ts.map fun u => (u, name))).2 := by
    cases ts with
    | nil => exact ⟨rfl, E⟩
    | cons u ts =>
        have hut := hts u List.mem_cons_self
        refine E.registerEach h (hn (hut ▸ List.mem_cons_self)) (fun e he => ?_)
          fun e he => absurd he List.not_mem_nil
        obtain ⟨v, hv, rfl⟩ := List.mem_map.1 he
        exact hts v hv
  obtain ⟨hanswer, E'⟩ := hreg
  rcases enroll_cases h i n name ts c with ⟨hok, heq⟩ | ⟨e, herr, heq⟩
  · rcases enroll_cases h (p.valueId i) (p.nodeId n) name ts b with ⟨-, heq'⟩ | ⟨e', herr', -⟩
    · rw [heq, heq']
      exact ⟨rfl, E'.enter n name i⟩
    · rw [hok, herr'] at hanswer
      cases hanswer
  · rcases enroll_cases h (p.valueId i) (p.nodeId n) name ts b with ⟨hok', -⟩ | ⟨e', herr', heq'⟩
    · rw [herr, hok'] at hanswer
      cases hanswer
    · rw [herr, herr'] at hanswer
      cases hanswer
      rw [heq, heq']
      exact ⟨rfl, E'⟩

/-- **Attaching.** -/
theorem attach (i : InterfaceId) (n : NodeId) :
    (b.attach h (p.valueId i) (p.nodeId n)).1 = (c.attach h i n).1 ∧
      Embeds p t rest (c.attach h i n).2 (b.attach h (p.valueId i) (p.nodeId n)).2 ∧
      p.Houses (c.attach h i n).2 t := by
  cases hi : c.interface? i with
  | none =>
      simp only [Bus.attach, hi, E.interface?_none hi]
      exact ⟨trivial, E, hown⟩
  | some y =>
      have hi' := E.interface?_some hi
      cases ho : y.owner with
      | some m =>
          rw [attach_of_owner h hi ho n, attach_of_owner h hi' (p.owner_some ho) (p.nodeId n)]
          exact ⟨rfl, E, hown⟩
      | none =>
          have ho' := p.owner_none ho
          cases hn : c.node? n with
          | none =>
              simp only [Bus.attach, hi, hi', ho, ho', hn, E.node?_none hn]
              exact ⟨rfl, E, hown⟩
          | some x =>
              have hn' := E.node?_some hn
              have htaken : (Entries.get? (p.value y).interface.name
                  (p.node x).interfaces).any b.isLiveInterface =
                    (Entries.get? y.interface.name x.interfaces).any c.isLiveInterface := by
                rw [p.get?_interfaces, Option.any_map]
                exact congrArg (Option.any · _) (funext E.isLiveInterface)
              cases hc : (Entries.get? y.interface.name x.interfaces).any c.isLiveInterface with
              | true =>
                  rw [attach_of_taken h hi ho hn hc, attach_of_taken h hi' ho' hn' (htaken.trans hc),
                    E.forest.path]
                  exact ⟨rfl, E, hown⟩
              | false =>
                  have hclear := cleared_spec E.alone h hn y.interface.name
                  have hown' := (hown.dropName n y.interface.name).called hclear.called
                  have E' := E.cleared hown h hn y.interface.name
                  have hcover := fun ht =>
                    ((hown.covers hn ht).dropName n y.interface.name).called hclear.called
                  obtain ⟨hanswer, E''⟩ := E'.enroll h
                    (fun u hu => E.eq_of_mem_transportsOf hn hu) hcover i y.interface.name
                  rw [attach_of_free E.alone h hi ho hn hc,
                    attach_of_free E.among h hi' ho' hn' (htaken.trans hc), E.transportsOf hn]
                  exact ⟨congrArg (Except.mapError Failure.error) hanswer, E'',
                    hown'.enroll E'.alone h i n y.interface.name _⟩

/-- **A node takes a loose value**, or the value is let go. -/
theorem makeInterface (levels : Nat) (i : InterfaceId) (n : NodeId) :
    (b.makeInterface (.ofLevels (levels + 1)) (p.valueId i) (p.nodeId n)).1 =
        (c.makeInterface (.ofLevels (levels + 1)) i n).1 ∧
      Embeds p t rest (c.makeInterface (.ofLevels (levels + 1)) i n).2
        (b.makeInterface (.ofLevels (levels + 1)) (p.valueId i) (p.nodeId n)).2 := by
  have E' : Embeds p t rest (c.handed i) (b.handed (p.valueId i)) :=
    E.adjustInterface i fun _ => rfl
  have hown' : p.Houses (c.handed i) t := hown
  obtain ⟨hanswer, E'', hown''⟩ := E'.attach hown' (.ofLevels (levels + 1)) i n
  rw [Bus.makeInterface, Bus.makeInterface, ← handed, ← handed]
  cases hc : (c.handed i).attach (.ofLevels (levels + 1)) i n with
  | mk answer c' =>
      cases hb : (b.handed (p.valueId i)).attach (.ofLevels (levels + 1)) (p.valueId i)
          (p.nodeId n) with
      | mk answer' b' =>
          rw [hc, hb] at hanswer E''
          rw [hc] at hown''
          cases hanswer
          cases answer with
          | ok _ => exact ⟨rfl, E''⟩
          | error e => exact ⟨rfl, E''.releaseInterface hown'' levels i⟩

end Bus.Embeds

end ObjectBus
