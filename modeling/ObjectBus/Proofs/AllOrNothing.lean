import ObjectBus.Proofs.Staleness

/-!
# All or nothing

An interface value that a node refuses, and a transport that refuses a node, leave everything as it
was: what was registered before the refusal is dropped again, on the transports and at the addresses
where it was registered.

This is true while all registrations are for live nodes. An address that a dead node left behind is
taken over, and a later refusal does not give it back.

A recorder may be told between any two operations which names it refuses. An interface value comes
to each of its transports with one name, and a node comes to a transport with names that differ, so
this is as good as a recorder that refuses whichever registrations it likes.
-/

set_option autoImplicit false

namespace ObjectBus.Bus

/-- **Nothing has changed** for nodes, for what transports hold, for the owners of interface values,
and for all of the values that are not excepted. -/
structure SameBut (except : InterfaceId → Prop) (b b' : Bus) : Prop where
  forest : b'.forest = b.forest
  transports : ∀ t, b'.transport? t = b.transport? t
  owners : ∀ j, b'.owner? j = b.owner? j
  values : ∀ j, ¬except j → b'.interface? j = b.interface? j

/-- The name of a loose value is free at a node, or a live value has it. -/
def NameKnown (b : Bus) (i : InterfaceId) (n : NodeId) : Prop :=
  ∀ y x j, b.interface? i = some y → b.node? n = some x →
    Entries.get? y.interface.name x.interfaces = some j → b.isLiveInterface j = true

section Refusal

variable {b : Bus} (hb : b.Sound) (hh : b.Held) (levels : Nat) {i : InterfaceId} {y : Instance}
  {n : NodeId} {x : Node}

/-- A value without an owner is let go without a trace. -/
theorem sameBut_release {c : Bus} (hc : c.Orderly)
    (hci : c.interface? i = some { y with isLoose := false }) (hi : b.interface? i = some y)
    (ho : y.owner = none) (hforest : c.forest = b.forest)
    (htransports : ∀ t, c.transport? t = b.transport? t)
    (hvalues : ∀ j, j ≠ i → c.interface? j = b.interface? j) :
    b.SameBut (· = i) (c.releaseInterface (.ofLevels (levels + 1)) i) := by
  obtain ⟨hforest', hservers', howner', hvalues'⟩ := releaseInterface_of_loose levels hc hci ho
  have hothers : ∀ j, j ≠ i →
      (c.releaseInterface (.ofLevels (levels + 1)) i).interface? j = b.interface? j :=
    fun j hj => (hvalues' j hj).trans (hvalues j hj)
  refine ⟨hforest'.trans hforest, fun t => ?_, fun j => ?_, hothers⟩
  · rw [transport?, hservers', ← htransports t, transport?]
  · by_cases hj : j = i
    · subst hj
      rw [howner', owner?_of_interface? hi, ho, Option.map_none]
    · rw [owner?, hothers j hj, owner?]

include hb hh

/-- **A value that a node refuses** leaves nothing behind, if it cleared no name. -/
theorem makeInterface_refused (hten : b.Tenanted) (hi : b.interface? i = some y)
    (hn : b.node? n = some x) (hname : b.NameKnown i n) {e : BusError}
    (herr : (b.makeInterface (.ofLevels (levels + 1)) i n).1 = .error (.error e)) :
    b.SameBut (· = i) (b.makeInterface (.ofLevels (levels + 1)) i n).2 := by
  have hb₁ := hb.handed i
  have hi₁ : (b.handed i).interface? i = some { y with isLoose := false } := by
    rw [interface?_handed, if_pos rfl, hi]
    rfl
  have hn₁ : (b.handed i).node? n = some x := hn
  have hvalues : ∀ j, j ≠ i → (b.handed i).interface? j = b.interface? j := fun j hj => by
    rw [interface?_handed, if_neg hj]
  have hlive := isLiveInterface_handed (b := b) i
  cases ho : y.owner with
  | some m =>
      -- this is a mistake of the program, and no refusal
      have hpanic := attach_of_owner (.ofLevels (levels + 1)) hi₁ ho n
      rw [makeInterface_of_error (congrArg Prod.fst hpanic)] at herr
      cases herr
  | none =>
      cases hk : Entries.get? y.interface.name x.interfaces with
      | some j =>
          have htaken : (Entries.get? y.interface.name x.interfaces).any
              (b.handed i).isLiveInterface = true := by
            rw [hk, Option.any_some, hlive]
            exact hname y x j hi hn hk
          have hduplicate := attach_of_taken (.ofLevels (levels + 1)) hi₁ ho hn₁ htaken
          rw [makeInterface_of_error (congrArg Prod.fst hduplicate), hduplicate]
          exact sameBut_release levels hb₁.orderly hi₁ hi ho rfl (fun _ => rfl) hvalues
      | none =>
          have hfree : (Entries.get? y.interface.name x.interfaces).any
              (b.handed i).isLiveInterface = false := by
            rw [hk]
            rfl
          rcases attach_spec hb₁ (.ofLevels (levels + 1)) hi₁ ho hn₁ (hh.handed i) hfree with
            ⟨hok, -⟩ | ⟨e', hattach, hcalled, htransports⟩
          · rw [makeInterface_of_ok hok] at herr
            cases herr
          · -- there is no name to clear, so the registrations are all that has happened
            have hsame : (b.handed i).cleared (.ofLevels (levels + 1)) n x y.interface.name =
                b.handed i := if_neg (by rw [hk]; exact Bool.false_ne_true)
            rw [hsame] at hcalled htransports
            rw [makeInterface_of_error hattach]
            exact sameBut_release levels (hcalled.orderly hb₁.orderly)
              ((hcalled.interface? i).trans hi₁) hi ho hcalled.forest (htransports hten)
              fun j hj => (hcalled.interface? j).trans (hvalues j hj)

/-- **A transport that refuses a node** leaves nothing behind. -/
theorem bind_refused (h : Host) (hten : b.Tenanted) (hn : b.node? n = some x) {t : TransportId}
    (hlive : b.isLiveServer t = true) {e : BusError} (herr : (b.bind h n t).1 = .error e) :
    b.SameBut (fun _ => False) (b.bind h n t).2 := by
  by_cases ht : t ∈ x.servers
  · simp only [bind, hn, List.contains_iff_mem.2 ht, if_true] at herr
    cases herr
  · obtain ⟨-, hbound⟩ := bind_spec hb hh h hn hlive ht
    rcases hbound with ⟨hok, -⟩ | ⟨e', -, hcalled, hsame⟩
    · rw [hok] at herr
      cases herr
    · exact ⟨hcalled.forest, hsame hten, hcalled.owner?, fun j _ => hcalled.interface? j⟩

end Refusal

/-- **Attaching and binding are all or nothing.** In every reachable bus whose transports hold
registrations of live nodes only, an interface value that a node refuses leaves all nodes, all
transports, all owners and all other interface values as they were, provided that its name was not
one that leads to nothing; and so does a transport that refuses a node. -/
theorem refusal_leaves_no_trace {levels : Nat} {b : Bus} (hb : b.Reachable levels)
    (hten : b.Tenanted) {n : NodeId} (hn : b.isLiveNode n = true) :
    (∀ i e, b.isLooseInterface i = true → b.NameKnown i n →
      (b.makeInterface (.ofLevels (levels + 1)) i n).1 = .error (.error e) →
      b.SameBut (· = i) (b.makeInterface (.ofLevels (levels + 1)) i n).2) ∧
    ∀ t e, b.isLiveServer t = true → (b.bind (.ofLevels (levels + 1)) n t).1 = .error e →
      b.SameBut (fun _ => False) (b.bind (.ofLevels (levels + 1)) n t).2 := by
  obtain ⟨hsound, hheld⟩ := hb.sound_held
  obtain ⟨x, hx, -⟩ := exists_of_isLiveNode hn
  refine ⟨fun i e hloose hname herr => ?_, fun t e hlive herr => ?_⟩
  · obtain ⟨y, hy⟩ := exists_of_isLoose hloose
    exact makeInterface_refused hsound hheld levels hten hy hx hname herr
  · exact bind_refused hsound hheld (.ofLevels (levels + 1)) hten hx hlive herr

/-- Whether something was refused, by an error that is no mistake of the program. -/
def refused {ε α : Type} : Except (Failure ε) α → Bool
  | .error (.error _) => true
  | _ => false

theorem exists_of_refused {ε α : Type} {r : Except (Failure ε) α} (h : refused r = true) :
    ∃ e, r = .error (.error e) := by
  unfold refused at h
  split at h
  · exact ⟨_, rfl⟩
  · cases h

/-- Three roots of one name: the first two are bound to one transport, the first and the third have
a value, and there is a loose one. -/
def crowded : Bus :=
  after 0 [.openLoopback { name := "t", root := "/" }, .makeRoot "r", .bind 0 0,
    .build { name := "I" }, .makeInterface 1 0, .makeRoot "r", .bind 1 0, .build { name := "J" },
    .makeRoot "r", .build { name := "K" }, .makeInterface 3 2]

/-- The address is in use by the first root: the transport refuses the loose value at the second
root, and it refuses the third one. -/
theorem refusal_in_crowded :
    ((∃ e, (crowded.makeInterface (.ofLevels 1) 2 1).1 = .error (.error e)) ∧
        crowded.SameBut (· = 2) (crowded.makeInterface (.ofLevels 1) 2 1).2) ∧
      (∃ e, (crowded.bind (.ofLevels 1) 2 0).1 = .error e) ∧
        crowded.SameBut (fun _ => False) (crowded.bind (.ofLevels 1) 2 0).2 := by
  have hb : crowded.Reaches 0 (StrandsNothing 0) := reaches_after_of_no_drop (by simp)
  have hten : crowded.Tenanted := (current_of_reaches hb).tenanted hb.reachable.sound_held.2
  have hlive : crowded.isLiveNode 1 = true := by decide +kernel
  have hlive' : crowded.isLiveNode 2 = true := by decide +kernel
  have hname : crowded.NameKnown 2 1 := by
    intro y x j hy hx hj
    have hnone : ((crowded.interface? 2).bind fun y => (crowded.node? 1).bind fun x =>
        Entries.get? y.interface.name x.interfaces) = none := by decide +kernel
    rw [hy, hx, Option.bind_some, Option.bind_some, hj] at hnone
    cases hnone
  obtain ⟨e, hmake⟩ := exists_of_refused
    (show refused (crowded.makeInterface (.ofLevels 1) 2 1).1 = true by decide +kernel)
  obtain ⟨e', hbind⟩ : ∃ e, (crowded.bind (.ofLevels 1) 2 0).1 = .error e := by
    have hrefused : (crowded.bind (.ofLevels 1) 2 0).1.toOption = none := by decide +kernel
    cases hres : (crowded.bind (.ofLevels 1) 2 0).1 with
    | ok u =>
        rw [hres] at hrefused
        cases hrefused
    | error e => exact ⟨e, rfl⟩
  have hvalue := (refusal_leaves_no_trace hb.reachable hten hlive).1 2 e (by decide +kernel) hname
    hmake
  have hbound := (refusal_leaves_no_trace hb.reachable hten hlive').2 0 e' (by decide +kernel) hbind
  exact ⟨⟨⟨e, hmake⟩, hvalue⟩, ⟨e', hbind⟩, hbound⟩

end ObjectBus.Bus
