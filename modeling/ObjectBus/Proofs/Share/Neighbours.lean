import ObjectBus.Proofs.Share.Operations

/-!
# Two parties side by side

A party that stands among others stays there when another one does something, provided that the two
have nothing in common (`Share.Apart`): what the other one changes is none of its things
(`Bus.Embeds.beside`). On a transport where nothing has happened yet, every party stands with nothing
at all (`Bus.embeds_newTransport`).
-/

set_option autoImplicit false

namespace ObjectBus

/-- **Two shares that have nothing in common**: no id of a node or a value, and no address. -/
structure Share.Apart (p q : Share) : Prop where
  nodes : ∀ n, p.SparesNode (q.nodeId n)
  values : ∀ i, p.SparesValue (q.valueId i)
  owns : ∀ a, q.owns a → ¬p.owns a

namespace Bus

namespace Embeds

variable {p q : Share} {t : TransportId} {rest b b' c d : Bus}

/-- What others have is what they have now. -/
theorem rested (E : Embeds p t rest c b) : Embeds p t b c b where
  alone := E.alone
  among := E.among
  forest := ⟨E.forest.alone, E.forest.among, E.forest.nodes, fun _ _ => rfl⟩
  values := E.values
  others _ _ := rfl
  bound := E.bound
  live := E.live
  live_among := E.live_among
  loopbacks := by
    obtain ⟨l, l', r, hl, hl', -, h⟩ := E.loopbacks
    exact ⟨l, l', l', hl, hl', hl', h.root, rfl, h.occupants, h.managed, h.within,
      fun _ _ => ⟨rfl, rfl⟩⟩

/-- **A step of one party leaves the other one in place.** -/
theorem beside (F : Embeds q t b d b) (E : Embeds p t b c b') (hpq : p.Apart q) :
    Embeds q t b' d b' where
  alone := F.alone
  among := E.among
  forest := by
    have hsame : ∀ n, b'.forest.get? (q.nodeId n) = (d.forest.get? n).map q.node :=
      fun n => (E.forest.others _ (hpq.nodes n)).trans (F.forest.nodes n)
    exact ⟨F.forest.alone, E.forest.among, hsame, fun _ _ => rfl⟩
  values i := (E.others _ (hpq.values i)).trans (F.values i)
  others _ _ := rfl
  bound := F.bound
  live := F.live
  live_among := E.live_among
  loopbacks := by
    obtain ⟨ld, lb, r, hd, hb, hr, hF⟩ := F.loopbacks
    obtain rfl : lb = r := Option.some.inj (hb.symm.trans hr)
    obtain ⟨lc, lb', r, -, hb', hr, hE⟩ := E.loopbacks
    obtain rfl : lb = r := Option.some.inj (hb.symm.trans hr)
    refine ⟨ld, lb', lb', hd, hb', hb', ?_⟩
    -- the addresses of the one are foreign to the other
    refine ⟨hE.rooted.trans hF.root, rfl, fun a ha => ?_, fun a ha => ?_, hF.within,
      fun _ _ => ⟨rfl, rfl⟩⟩
    · rw [(hE.others a (hpq.owns a ha)).1, hF.occupants a ha]
    · rw [(hE.others a (hpq.owns a ha)).2, hF.managed a ha]

end Embeds

/-! ## Where nothing has happened -/

theorem loopback?_newTransport_self (b : Bus) (l : Loopback) :
    (b.newTransport (.loopback l)).2.loopback? b.next = some l := by
  rw [loopback?, transport?_newTransport, if_pos rfl]

theorem isLiveServer_newTransport_self (b : Bus) (s : Transport) :
    (b.newTransport s).2.isLiveServer b.next = true := by
  rw [isLiveServer, get?_newTransport, if_pos rfl]
  rfl

/-- **A party that has done nothing**, on a new transport that is the first thing on the bus. -/
theorem embeds_newTransport (p : Share) {l : Loopback} (hl : l.Orderly)
    (hregistry : ∀ a, l.registry.get? a = none) (hmanaged : l.managed = []) :
    Embeds p 0 (({} : Bus).newTransport (.loopback l)).2
      (({} : Bus).newTransport (.loopback l)).2 (({} : Bus).newTransport (.loopback l)).2 := by
  have hempty : ∀ a, l.registry.get? a = none ∧ Entries.get? a l.managed = none := by
    intro a
    rw [hmanaged]
    exact ⟨hregistry a, rfl⟩
  have hsound : (({} : Bus).newTransport (.loopback l)).2.Sound := by
    refine sound_empty.newTransport ?_ (fun r h => nomatch h)
    rintro _ ⟨⟩
    exact hl
  have hlive := isLiveServer_newTransport_self {} (.loopback l)
  have hself := loopback?_newTransport_self {} l
  have hnodes : Forest.Embeds p (({} : Bus).newTransport (.loopback l)).2.forest
      (({} : Bus).newTransport (.loopback l)).2.forest
      (({} : Bus).newTransport (.loopback l)).2.forest :=
    ⟨hsound.forest, hsound.forest, fun _ => rfl, fun _ _ => rfl⟩
  refine ⟨hsound.orderly, hsound.orderly, hnodes, fun _ => rfl, fun _ _ => rfl,
    fun hn => (nomatch hn), hlive, hlive, l, l, l, hself, hself, hself, ?_⟩
  refine ⟨rfl, rfl, fun a _ => ?_, fun _ _ => rfl, fun a _ => hempty a, fun _ _ => ⟨rfl, rfl⟩⟩
  rw [hregistry]
  rfl

end Bus

end ObjectBus
