import ObjectBus.Proofs.Callbacks.Commands

/-!
# Stale copies

A value that is moved out of its handle is loose, and believes to be attached to its node still; the
name that it had there leads nowhere. Another value of the name may then be attached to the node,
moved out in its turn, and so on, so that many loose values may believe to have one name.

Such a value is a stale copy (`Bus.Stale`) while some live value has the name. It does no harm:
letting it go, or trying to attach it, which panics and lets it go, leaves everything but the copy
as it was. The reason is that a loose value has no name (`Bus.Owned.not_has_of_loose`), so the live
value that has it is another one, and is left alone (`Bus.Claimless`). Values without an owner do no
harm for a simpler reason: clones have none, and neither has a value that was refused, whatever has
been done by hooks before the refusal.
-/

set_option autoImplicit false

namespace ObjectBus.Bus

/-- **Nothing has changed but one interface value**: nodes with their tables, transports with what
is registered there, and all other values are the same. -/
def LeavesOthers (i : InterfaceId) (b b' : Bus) : Prop :=
  ∃ es, b' = { b with interfaces := es } ∧
    ∀ j, j ≠ i → Entries.get? j es = Entries.get? j b.interfaces

/-- **A stale copy**: a loose value that believes to be attached to a node where a live value has
its name. -/
def Stale (b : Bus) (i : InterfaceId) : Prop :=
  ∃ y n j, b.interface? i = some y ∧ y.isLoose = true ∧ y.owner = some n ∧
    b.Has n y.interface.name j ∧ b.isLiveInterface j = true

/-- **A value claims no name**: it has no owner, or another live value has the name at its owner. -/
def Claimless (b : Bus) (i : InterfaceId) (y : Instance) : Prop :=
  ∀ n, y.owner = some n → ∃ j, j ≠ i ∧ b.Has n y.interface.name j ∧ b.isLiveInterface j = true

variable {b b' : Bus} {i : InterfaceId} {y : Instance}

namespace LeavesOthers

theorem refl (i : InterfaceId) (b : Bus) : b.LeavesOthers i b := ⟨_, rfl, fun _ _ => rfl⟩

theorem trans {b'' : Bus} (h : b.LeavesOthers i b') (h' : b'.LeavesOthers i b'') :
    b.LeavesOthers i b'' := by
  obtain ⟨es, rfl, hes⟩ := h
  obtain ⟨es', rfl, hes'⟩ := h'
  exact ⟨es', rfl, fun j hj => (hes' j hj).trans (hes j hj)⟩

theorem adjustInterface (b : Bus) (i : InterfaceId) (change : Instance → Instance) :
    b.LeavesOthers i (b.adjustInterface i change) :=
  ⟨_, rfl, fun _ hj => Entries.get?_adjust_of_ne hj change b.interfaces⟩

theorem forget (b : Bus) (i : InterfaceId) : b.LeavesOthers i (b.forget i) :=
  ⟨_, rfl, fun _ hj => Entries.get?_drop_of_ne hj b.interfaces⟩

theorem has_iff (h : b.LeavesOthers i b') (n : NodeId) (k : String) (j : InterfaceId) :
    b'.Has n k j ↔ b.Has n k j := by
  obtain ⟨es, rfl, -⟩ := h
  exact Iff.rfl

theorem isLiveInterface (h : b.LeavesOthers i b') {j : InterfaceId} (hj : j ≠ i) :
    b'.isLiveInterface j = b.isLiveInterface j := by
  obtain ⟨es, rfl, hes⟩ := h
  unfold Bus.isLiveInterface interface?
  rw [hes j hj]

/-- A value claims no name that it did not claim, while only the value itself changes. -/
theorem claimless (h : b.LeavesOthers i b') (hc : b.Claimless i y) {y' : Instance}
    (hname : y'.interface = y.interface) (howner : y'.owner = y.owner) : b'.Claimless i y' := by
  intro n hn
  obtain ⟨j, hj, hhas, hlive⟩ := hc n (howner ▸ hn)
  exact ⟨j, hj, (h.has_iff n _ j).2 (hname ▸ hhas), (h.isLiveInterface hj).trans hlive⟩

end LeavesOthers

/-! ## Letting go of what claims no name -/

/-- Destroying a value that claims no name is forgetting it. -/
theorem destroyInterface_of_claimless (h : Host) (hi : b.interface? i = some y)
    (hc : b.Claimless i y) : b.destroyInterface h i = b.forget i := by
  unfold destroyInterface release
  rw [hi]
  cases ho : y.owner with
  | none => simp only [ho, Bus.forget]
  | some n =>
      obtain ⟨j, hj, ⟨x, hx, hk⟩, hlive⟩ := hc n ho
      have hx' : (b.setOwner i none).node? n = some x := hx
      have hkept : (b.setOwner i none).clearsName i j = false := by
        rw [clearsName, isLiveInterface_setOwner, hlive]
        simp [hj]
      simp only [ho, hx', hk, hkept, Bool.false_eq_true, if_false]
      exact forget_adjustInterface b i _

/-- A value that is not there is let go without a trace. -/
theorem releaseInterface_of_none (levels : Nat) (hi : b.interface? i = none) :
    b.LeavesOthers i (b.releaseInterface (.ofLevels (levels + 1)) i) := by
  have hi' : (b.adjustInterface i fun v => { v with handles := v.handles - 1 }).interface? i =
      none := by
    rw [interface?_adjustInterface, if_pos rfl, hi, Option.map_none]
  have hadjusted := LeavesOthers.adjustInterface b i fun v => { v with handles := v.handles - 1 }
  unfold releaseInterface
  dsimp only
  split
  · exact hadjusted
  · refine hadjusted.trans ?_
    show LeavesOthers i _ (destroyInterface (.ofLevels levels) i _)
    unfold destroyInterface release
    rw [hi']
    exact LeavesOthers.forget _ i

/-- **A value that claims no name** is let go without a trace, and is gone if it was held once. -/
theorem releaseInterface_of_claimless (levels : Nat) (hi : b.interface? i = some y)
    (hc : b.Claimless i y) :
    b.releaseInterface (.ofLevels (levels + 1)) i =
      if y.handles ≤ 1 then b.forget i
      else b.adjustInterface i fun v => { v with handles := v.handles - 1 } := by
  have hi' : (b.adjustInterface i fun v => { v with handles := v.handles - 1 }).interface? i =
      some { y with handles := y.handles - 1 } := by
    rw [interface?_adjustInterface, if_pos rfl, hi, Option.map_some]
  have hc' : (b.adjustInterface i fun v => { v with handles := v.handles - 1 }).Claimless i
      { y with handles := y.handles - 1 } :=
    (LeavesOthers.adjustInterface b i fun v => { v with handles := v.handles - 1 }).claimless hc
      rfl rfl
  have hlive :
      (b.adjustInterface i fun v => { v with handles := v.handles - 1 }).isLiveInterface i =
        decide (0 < y.handles - 1) := by
    rw [Bus.isLiveInterface, hi']
  unfold releaseInterface
  dsimp only
  rw [hlive]
  by_cases hlast : y.handles ≤ 1
  · have hdead : ¬0 < y.handles - 1 := by omega
    rw [if_pos hlast, decide_eq_false hdead]
    exact (destroyInterface_of_claimless (.ofLevels levels) hi' hc').trans
      (forget_adjustInterface b i _)
  · have hmore : 0 < y.handles - 1 := by omega
    rw [if_neg hlast, decide_eq_true hmore]
    rfl

theorem leavesOthers_releaseInterface (levels : Nat) (hi : b.interface? i = some y)
    (hc : b.Claimless i y) :
    b.LeavesOthers i (b.releaseInterface (.ofLevels (levels + 1)) i) := by
  rw [releaseInterface_of_claimless levels hi hc]
  split
  · exact LeavesOthers.forget b i
  · exact LeavesOthers.adjustInterface b i _

/-! ## What claims no name -/

/-- A stale copy claims no name: it is loose, and so the live value that has its name is another
one. -/
theorem Stale.exists_claimless {leaving : NodeId → Prop} (hb : b.Owned leaving) (hs : b.Stale i) :
    ∃ y n, b.interface? i = some y ∧ y.isLoose = true ∧ y.owner = some n ∧ b.Claimless i y := by
  obtain ⟨y, n, j, hi, hloose, ho, hhas, hlive⟩ := hs
  refine ⟨y, n, hi, hloose, ho, fun m hm => ?_⟩
  rw [ho, Option.some.injEq] at hm
  subst hm
  refine ⟨j, ?_, hhas, hlive⟩
  rintro rfl
  exact hb.not_has_of_loose hi hloose n _ hhas

theorem claimless_of_owner (ho : y.owner = none) : b.Claimless i y := by
  intro n hn
  rw [ho] at hn
  cases hn

/-- While one copy goes, the other ones stay as stale as they are. -/
theorem Stale.leavesOthers {leaving : NodeId → Prop} (hb : b.Owned leaving) {k : InterfaceId}
    (hk : b.Stale k) (hi : b.Stale i) (h : b.LeavesOthers i b') (hne : k ≠ i) : b'.Stale k := by
  obtain ⟨v, m, j, hv, hloose, ho, hhas, hlive⟩ := hk
  obtain ⟨y, -, -, hy, hyloose, -⟩ := hi
  have hji : j ≠ i := by
    rintro rfl
    exact hb.not_has_of_loose hy hyloose m _ hhas
  have hv' : b'.interface? k = some v := by
    obtain ⟨es, rfl, hes⟩ := h
    exact (hes k hne).trans hv
  exact ⟨v, m, j, hv', hloose, ho, (h.has_iff m _ j).2 hhas, (h.isLiveInterface hji).trans hlive⟩

/-! ## Values that were refused -/

theorem error_of_mapError {α ε : Type} {r : Except ε α} {e : ε}
    (h : r.mapError Failure.error = .error (.error e)) : r = .error e := by
  cases r with
  | ok x => cases h
  | error e' => cases h; rfl

section Refused

variable {h : Host} (hh : h.Lawful) {n : NodeId}

include hh

theorem advances_of_enroll_error {name : String} {ts : List TransportId} {e : BusError}
    (herr : (b.enroll h i n name ts).1 = .error e) : b.Advances (b.enroll h i n name ts).2 := by
  have hreg : b.Advances _ := hh.calls.registerOnAll n name ts [] b
  unfold enroll at herr ⊢
  cases hres : b.registerOnAll h n name [] ts with
  | mk result c =>
      rw [hres] at herr hreg
      cases result with
      | ok u => cases herr
      | error e => exact hreg

/-- **A refusal gives no value a node**, whatever hooks have done on the way. -/
theorem advances_of_attach_error {e : BusError} (herr : (b.attach h i n).1 = .error (.error e)) :
    b.Advances (b.attach h i n).2 := by
  cases hi : b.interface? i with
  | none =>
      simp only [attach, hi]
      exact Advances.refl b
  | some y =>
      simp only [attach, hi] at herr ⊢
      split
      · exact Advances.refl b
      · next ho =>
          rw [if_neg ho] at herr
          cases hx : b.node? n with
          | none => exact Advances.refl b
          | some x =>
              simp only [hx] at herr ⊢
              split
              · exact Advances.refl b
              · next hfree =>
                  rw [if_neg hfree] at herr
                  have henroll := error_of_mapError herr
                  have hheld : b.Advances _ := hh.calls.holdServers b (b.transportsOf x)
                  refine Advances.trans ?_ (hh.calls.releaseServers _ _)
                  refine Advances.trans ?_ (advances_of_enroll_error hh henroll)
                  split
                  · exact hheld.trans (advances_clearName hh _ n _ _)
                  · exact hheld

/-- So a value that was refused has no owner. -/
theorem owner_of_attach_error {leaving : NodeId → Prop} (hb : b.Owned leaving) {e : BusError}
    (hi : b.interface? i = some y) (hheld : y.isLoose = false)
    (herr : (b.attach h i n).1 = .error (.error e)) {v : Instance}
    (hv : (b.attach h i n).2.interface? i = some v) : v.owner = none := by
  have ho : y.owner = none := by
    cases ho : y.owner with
    | none => rfl
    | some m =>
        rw [attach_of_owner h hi ho n] at herr
        cases herr
  obtain ⟨w, hw, hbecomes, -⟩ := (advances_of_attach_error hh herr leaving hb).2.value
    (hb.value_lt hi) hv
  rw [hi, Option.some.injEq] at hw
  subst hw
  exact (hbecomes.owner hheld).elim (fun h => h.trans ho) id

end Refused

/-! ## The main result -/

/-- **A handle of a value is let go**, and nothing else happens; the value is gone if it was the
last one. -/
structure LetsGo (i : InterfaceId) (b b' : Bus) : Prop where
  others : b.LeavesOthers i b'
  gone : ∀ y, b.interface? i = some y → y.handles ≤ 1 → b'.interface? i = none

theorem letsGo_releaseInterface {leaving : NodeId → Prop} (hb : b.Owned leaving) (levels : Nat)
    (hi : b.interface? i = some y) (hc : b.Claimless i y) :
    b.LetsGo i (b.releaseInterface (.ofLevels (levels + 1)) i) := by
  refine ⟨leavesOthers_releaseInterface levels hi hc, fun v hv hlast => ?_⟩
  rw [hi, Option.some.injEq] at hv
  subst hv
  rw [releaseInterface_of_claimless levels hi hc, if_pos hlast]
  exact Entries.get?_drop_self hb.values i

/-- **Attaching a value that believes to be attached** is a panic that lets the value go. -/
theorem makeInterface_of_owner {leaving : NodeId → Prop} (hb : b.Owned leaving) (levels : Nat)
    (hi : b.interface? i = some y) (hloose : y.isLoose = true) {n : NodeId} (ho : y.owner = some n)
    (hc : b.Claimless i y) (m : NodeId) :
    (b.makeInterface (.ofLevels (levels + 1)) i m).1 = .error (.panic
      ("interface '" ++ y.interface.name ++ "' is already attached to a node")) ∧
    b.LetsGo i (b.makeInterface (.ofLevels (levels + 1)) i m).2 := by
  have hi₁ : (b.handed i).interface? i = some { y with isLoose := false } := by
    rw [interface?_handed, if_pos rfl, hi, Option.map_some]
  have hhanded : b.LeavesOthers i (b.handed i) := LeavesOthers.adjustInterface b i _
  have hgo := letsGo_releaseInterface (advances_handed hi hloose leaving hb).1 levels hi₁
    (hhanded.claimless hc rfl rfl)
  have hpanic := attach_of_owner (.ofLevels (levels + 1)) hi₁ ho m
  rw [makeInterface_of_error (congrArg Prod.fst hpanic), hpanic]
  refine ⟨rfl, hhanded.trans hgo.others, fun v hv hlast => hgo.gone _ hi₁ ?_⟩
  rw [hi, Option.some.injEq] at hv
  exact hv ▸ hlast

/-- A clone is let go as if it had never been made. -/
theorem releaseInterface_clone {leaving : NodeId → Prop} (hb : b.Owned leaving) (levels : Nat)
    (x : Interface) :
    (b.newInstance { interface := x }).2.releaseInterface (.ofLevels (levels + 1)) b.next =
      { b with next := b.next + 1 } := by
  have hnew : (b.newInstance { interface := x }).2.interface? b.next = some { interface := x } := by
    rw [interface?_newInstance, if_pos rfl]
  have hnone : Entries.get? b.next b.interfaces = none := by
    cases hi : Entries.get? b.next b.interfaces with
    | none => rfl
    | some y => exact absurd (hb.value_lt hi) (Nat.lt_irrefl _)
  rw [releaseInterface_of_claimless levels hnew (claimless_of_owner rfl), if_pos (Nat.le_refl 1)]
  show Bus.mk _ (Entries.drop b.next (Entries.put b.next _ b.interfaces)) _ _ _ _ _ _ = _
  rw [Entries.drop_put hnone]
  rfl

/-- **A value that a node refuses** is let go without changing what the refusal has left. -/
theorem leavesOthers_of_refused {leaving : NodeId → Prop} (hb : b.Owned leaving) (levels : Nat)
    {m : NodeId} {e : BusError} (hi : b.interface? i = some y) (hl : y.isLoose = true)
    (herr : (b.makeInterface (.ofLevels (levels + 1)) i m).1 = .error (.error e)) :
    ((b.handed i).attach (.ofLevels (levels + 1)) i m).2.LeavesOthers i
      (b.makeInterface (.ofLevels (levels + 1)) i m).2 := by
  have hi₁ : (b.handed i).interface? i = some { y with isLoose := false } := by
    rw [interface?_handed, if_pos rfl, hi, Option.map_some]
  have hrefused : ((b.handed i).attach (.ofLevels (levels + 1)) i m).1 = .error (.error e) := by
    cases hres : ((b.handed i).attach (.ofLevels (levels + 1)) i m).1 with
    | ok u =>
        rw [makeInterface_of_ok hres] at herr
        cases herr
    | error f =>
        rw [makeInterface_of_error hres] at herr
        exact herr
  rw [makeInterface_of_error hrefused]
  cases hv : ((b.handed i).attach (.ofLevels (levels + 1)) i m).2.interface? i with
  | none => exact releaseInterface_of_none levels hv
  | some v =>
      exact leavesOthers_releaseInterface levels hv (claimless_of_owner
        (owner_of_attach_error (Host.lawful_ofLevels (levels + 1))
          (advances_handed hi hl leaving hb).1 hi₁ rfl hrefused hv))

/-- **Stale copies are harmless.** While names have owners, as they have after every session and in
the middle of every operation: letting a stale copy go, or trying to attach it to any node, which
panics, changes nothing but the copy, which is gone if it was held once; other copies are stale
still. Letting go of any value without an owner changes nothing but the value; a clone has no owner,
and is let go as if it had never been made; and a value that a node refuses with an error is let go
without changing what the refusal has left. -/
theorem stale_copies_are_harmless (levels : Nat) {leaving : NodeId → Prop} {b : Bus}
    (hb : b.Owned leaving) :
    (∀ i, b.Stale i → ∃ y, b.interface? i = some y ∧
      b.LetsGo i (b.releaseInterface (.ofLevels (levels + 1)) i) ∧
      (∀ m, (b.makeInterface (.ofLevels (levels + 1)) i m).1 = .error (.panic
          ("interface '" ++ y.interface.name ++ "' is already attached to a node")) ∧
        b.LetsGo i (b.makeInterface (.ofLevels (levels + 1)) i m).2) ∧
      ∀ b' k, b.LetsGo i b' → k ≠ i → b.Stale k → b'.Stale k) ∧
    (∀ i y, b.interface? i = some y → y.owner = none →
      b.LetsGo i (b.releaseInterface (.ofLevels (levels + 1)) i)) ∧
    (∀ x : Interface, (b.newInstance { interface := x }).2.releaseInterface
      (.ofLevels (levels + 1)) b.next = { b with next := b.next + 1 }) ∧
    (∀ i y m e, b.interface? i = some y → y.isLoose = true →
      (b.makeInterface (.ofLevels (levels + 1)) i m).1 = .error (.error e) →
      ((b.handed i).attach (.ofLevels (levels + 1)) i m).2.LeavesOthers i
        (b.makeInterface (.ofLevels (levels + 1)) i m).2) := by
  refine ⟨fun i hs => ?_, fun i y hi ho => letsGo_releaseInterface hb levels hi
    (claimless_of_owner ho), releaseInterface_clone hb levels, fun i y m e hi hloose herr =>
      leavesOthers_of_refused hb levels hi hloose herr⟩
  obtain ⟨y, n, hi, hloose, ho, hc⟩ := hs.exists_claimless hb
  exact ⟨y, hi, letsGo_releaseInterface hb levels hi hc,
    makeInterface_of_owner hb levels hi hloose ho hc, fun b' k hgo hne hk =>
      hk.leavesOthers hb hs hgo.others hne⟩

/-- One node, bound to a recorder, to which three values of one name are attached one after the
other; the first two are moved out of their handles. -/
def superseded : Bus :=
  Session.busAfter 2
    [.root "n" "n", .recorder "t" "/", .bind "n" "t", .declare "i" "I" [] [] [], .attach "i" "n",
      .takeOut "i", .declare "j" "I" [] [] [], .attach "j" "n", .takeOut "j",
      .declare "k" "I" [] [] [], .attach "k" "n"]

/-- Both of the values that were moved out are stale. Neither letting the
one go nor trying to attach the other one does anything to the value that has the name. -/
theorem stale_copies_are_harmless_when_superseded :
    superseded.Stale 2 ∧ superseded.Stale 4 ∧
      superseded.LetsGo 2 (superseded.releaseInterface (.ofLevels 1) 2) ∧
      (superseded.releaseInterface (.ofLevels 1) 2).Stale 4 ∧
      superseded.LetsGo 4 (superseded.makeInterface (.ofLevels 1) 4 0).2 ∧
      superseded.Has 0 "I" 5 := by
  have hb : superseded.Owned fun _ => False := Session.owned_busAfter 2 _
  have hfirst : (superseded.interface? 2).map (fun y => (y.interface.name, y.owner, y.isLoose)) =
      some ("I", some 0, true) := by decide +kernel
  have hsecond : (superseded.interface? 4).map (fun y => (y.interface.name, y.owner, y.isLoose)) =
      some ("I", some 0, true) := by decide +kernel
  have hname : (superseded.node? 0).bind (fun x => Entries.get? "I" x.interfaces) = some 5 := by
    decide +kernel
  have hhas : superseded.Has 0 "I" 5 := Option.bind_eq_some_iff.1 hname
  have hlive : superseded.isLiveInterface 5 = true := by decide +kernel
  obtain ⟨y, hy, hbadge⟩ := Option.map_eq_some_iff.1 hfirst
  obtain ⟨z, hz, hbadge'⟩ := Option.map_eq_some_iff.1 hsecond
  obtain ⟨hyname, hyowner, hyloose⟩ := by simpa only [Prod.mk.injEq] using hbadge
  obtain ⟨hzname, hzowner, hzloose⟩ := by simpa only [Prod.mk.injEq] using hbadge'
  have hstale : superseded.Stale 2 :=
    ⟨y, 0, 5, hy, hyloose, hyowner, hyname ▸ hhas, hlive⟩
  have hstale' : superseded.Stale 4 :=
    ⟨z, 0, 5, hz, hzloose, hzowner, hzname ▸ hhas, hlive⟩
  obtain ⟨-, -, hgo, -, hothers⟩ := (stale_copies_are_harmless 0 hb).1 2 hstale
  obtain ⟨w, -, -, hattach, -⟩ := (stale_copies_are_harmless 0 hb).1 4 hstale'
  exact ⟨hstale, hstale', hgo, hothers _ 4 hgo (by decide) hstale', (hattach 0).2, hhas⟩

end ObjectBus.Bus
