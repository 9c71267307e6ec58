import ObjectBus.Proofs.Dispatch

/-!
# Calls with too few or too many arguments

A callable that is given another number of values than it has arguments does not look at any of them
(`Callable.invoke_of_count`). On the way from afar the values are imported first, as far as there are
declared arguments for them, and the count is looked at by the function. So a path that leads nowhere is
complained of before the count, and what a caller is told depends on the values after all, but only on
their paths that stand where a declared argument has an object
(`Bus.miscounted_unless_a_path_leads_nowhere`).

The callable is not run in either case, and nothing changes.
-/

set_option autoImplicit false

namespace ObjectBus

namespace Loopback

variable {l : Loopback} {isLive : ObjectId → Bool} {args values : List Value} {shapes : List Shape}

/-- **Every path leads to a live object** that stands where the shape of its argument has one. -/
def FindsAll (l : Loopback) (isLive : ObjectId → Bool) (args : List Value) (shapes : List Shape) :
    Prop :=
  ∀ e ∈ args.zip shapes, ∀ q, e.1.Asks e.2 q → ∃ o, l.FindsObject isLive q o

/-- **A path leads nowhere**, in the first argument that has such a path. -/
def Misses (l : Loopback) (isLive : ObjectId → Bool) (args : List Value) (shapes : List Shape)
    (q : String) : Prop :=
  ∃ k v t, args[k]? = some v ∧ shapes[k]? = some t ∧ v.Asks t q ∧
    (∀ o, ¬l.FindsObject isLive q o) ∧ l.FindsAll isLive (args.take k) shapes

/-- Importing keeps the number of arguments. -/
theorem length_importValues (h : l.importValues isLive args shapes = .ok values) :
    values.length = args.length := by
  obtain ⟨zs, rfl, hzs⟩ := Value.importedFields_eq_ok_iff.1 h
  have hzip := hzs.length_eq
  rw [List.length_zip] at hzip
  rw [List.length_append, List.length_drop]
  omega

/-- **What importing arguments complains of.** -/
theorem fault_of_importValues {fault : Fault}
    (h : l.importValues isLive args shapes = .error fault) :
    ∃ q, l.Misses isLive args shapes q ∧ fault = .unknownObject q := by
  unfold importValues at h
  rw [Value.importedFields_eq_mapM, map_eq_error_iff] at h
  obtain ⟨k, e, he, hfault, hbefore⟩ := exists_first_of_mapM_eq_error h
  obtain ⟨q, hq, hnone, rfl⟩ := Value.fault_of_imported hfault
  obtain ⟨hv, ht⟩ := List.getElem?_zip_eq_some.1 he
  refine ⟨q, ⟨k, e.1, e.2, hv, ht, hq, fun o ho => ?_, fun d hd => ?_⟩, rfl⟩
  · rw [managedAt?_eq_some_iff.2 ho] at hnone
    cases hnone
  · obtain ⟨j, hj⟩ := List.mem_iff_getElem?.1 hd
    obtain ⟨hjv, hjt⟩ := List.getElem?_zip_eq_some.1 hj
    rw [List.getElem?_take] at hjv
    split at hjv
    · next hlt =>
        exact exists_importValue_iff.1 (hbefore j hlt d (List.getElem?_zip_eq_some.2 ⟨hjv, hjt⟩))
    · cases hjv

end Loopback

/-- **A wrong number of values is complained of**, whatever they are, and the callable is not run. -/
theorem Callable.invoke_of_count {c : Callable} {values : List Value}
    (h : values.length ≠ c.args.length) (b : Bus) :
    c.invoke values b =
      (.error (.error (.argumentCount c.args.length values.length)), b) := by
  simp only [invoke, invokeTyped, Native.decodePack, if_neg h]
  rfl

namespace Bus

variable {b : Bus} {l : Loopback} {callable : Function → Callable} {address interface name : String}
  {i : InterfaceId} {x : Interface} {f : Function} {args values : List Value}

/-- What a remote caller is told who gave the wrong number of arguments. -/
def miscounted (f : Callable) (args : List Value) : Fault :=
  .invalidArgs (BusError.argumentCount f.args.length args.length).message

/-- What is imported reaches the function, which counts. -/
theorem remoteCallOf_of_count (h : Host) (t : TransportId)
    (hresolve : b.resolve l address interface = .ok (i, x)) (hfunction : x.function name = .ok f)
    (hcount : args.length ≠ (callable f).args.length)
    (himport : l.importValues b.isLiveObject args (callable f).argTypes = .ok values) :
    b.remoteCallOf callable h t l address interface name args =
      (.error (.error (miscounted (callable f) args)), b) := by
  obtain ⟨-, -, -, -, -, -, -, -, -, hlive, -⟩ := resolve_eq_ok_iff.1 hresolve
  have hlength := Loopback.length_importValues himport
  have hinvoke := Callable.invoke_of_count (c := callable f) (by rwa [hlength])
    (b.holdInterface i)
  rw [hlength] at hinvoke
  simp only [remoteCallOf, hresolve, hfunction, himport, serve, hinvoke,
    releaseInterface_holdInterface h hlive]
  rfl

/-- **A wrong number of arguments is complained of, unless a path leads nowhere.** Whatever the callables
behind the functions are: one that is given too few or too many values does not look at them. From afar
the caller is told of the wrong number if and only if each path that stands where a declared argument has
an object leads to a live one, and otherwise of a path that leads nowhere, in the first argument that has
one. So the caller is always told of the wrong number if no declared argument has an object in it. In
no case is the callable run, and nothing changes. `Bus.remoteCall` is the case in which the callables are
the routines. -/
theorem miscounted_unless_a_path_leads_nowhere (callable : Function → Callable) (h : Host)
    (t : TransportId) (b : Bus) (l : Loopback) (address interface name : String) {i : InterfaceId}
    {x : Interface} {f : Function} (hresolve : b.resolve l address interface = .ok (i, x))
    (hfunction : x.function name = .ok f) (args : List Value)
    (hcount : args.length ≠ (callable f).args.length) :
    (∀ c, (callable f).invoke args c =
      (.error (.error (.argumentCount (callable f).args.length args.length)), c)) ∧
    (b.remoteCallOf callable h t l address interface name args =
        (.error (.error (miscounted (callable f) args)), b) ↔
      l.FindsAll b.isLiveObject args (callable f).argTypes) ∧
    (¬l.FindsAll b.isLiveObject args (callable f).argTypes →
      ∃ q, l.Misses b.isLiveObject args (callable f).argTypes q ∧
        b.remoteCallOf callable h t l address interface name args =
          (.error (.error (.unknownObject q)), b)) ∧
    ((∀ s ∈ (callable f).argTypes, ¬(Shape.scalar .object).PartOf s) →
      b.remoteCallOf callable h t l address interface name args =
        (.error (.error (miscounted (callable f) args)), b)) := by
  have hcounted : l.FindsAll b.isLiveObject args (callable f).argTypes →
      b.remoteCallOf callable h t l address interface name args =
        (.error (.error (miscounted (callable f) args)), b) := by
    intro hall
    obtain ⟨values, himport⟩ := Loopback.exists_importValues_iff.2 hall
    exact remoteCallOf_of_count h t hresolve hfunction hcount himport
  have hmissed : ¬l.FindsAll b.isLiveObject args (callable f).argTypes →
      ∃ q, l.Misses b.isLiveObject args (callable f).argTypes q ∧
        b.remoteCallOf callable h t l address interface name args =
          (.error (.error (.unknownObject q)), b) := by
    intro hnot
    cases himport : l.importValues b.isLiveObject args (callable f).argTypes with
    | ok values => exact absurd (Loopback.exists_importValues_iff.1 ⟨values, himport⟩) hnot
    | error fault =>
        obtain ⟨q, hq, rfl⟩ := Loopback.fault_of_importValues himport
        exact ⟨q, hq, by simp only [remoteCallOf, hresolve, hfunction, himport]⟩
  refine ⟨Callable.invoke_of_count hcount, ⟨fun htold => ?_, hcounted⟩, hmissed,
    fun hplain => hcounted fun e he q hq => ?_⟩
  · -- the two refusals are told apart by their faults
    by_contra hnot
    obtain ⟨q, -, hunknown⟩ := hmissed hnot
    rw [htold] at hunknown
    cases hunknown
  · exact absurd hq (Value.not_asks_of_not_partOf (hplain e.2 (List.of_mem_zip he).2) q)

/-- The titles of a list of objects are asked for with a number too many. If the list leads to the lamp,
the caller is told of the wrong number, and so is a caller without arguments; if it leads nowhere, the
caller is told so. -/
theorem miscounted_unless_a_path_leads_nowhere_to_the_lamp :
    let call := lampBus.remoteCallOf (Function.callable .inert) .inert 3 lampTransport "/r" "I" "titles"
    call [.vector [.scalar .path "/r/"], .scalar .int32 5] =
        (.error (.error (.invalidArgs "argument count mismatch: expected 1, found 2")), lampBus) ∧
      call [] =
        (.error (.error (.invalidArgs "argument count mismatch: expected 1, found 0")), lampBus) ∧
      call [.vector [.scalar .path "/s"], .scalar .int32 5] =
        (.error (.error (.unknownObject "/s")), lampBus) := by
  intro call
  have hresolve : lampBus.resolve lampTransport "/r" "I" =
    .ok (4, { name := "I", functions := [("titles", titles)] }) := rfl
  have hcalled := fun args => miscounted_unless_a_path_leads_nowhere (Function.callable .inert) .inert 3
    lampBus lampTransport "/r" "I" "titles" hresolve (f := titles) rfl args
  refine ⟨?_, ?_, ?_⟩
  · obtain ⟨-, htold, -⟩ := hcalled [.vector [.scalar .path "/r/"], .scalar .int32 5] (by decide)
    exact htold.2 (Loopback.exists_importValues_iff.1 ⟨_, rfl⟩)
  · obtain ⟨-, htold, -⟩ := hcalled [] (by decide)
    exact htold.2 fun e he => nomatch he
  · obtain ⟨-, -, hmissed, -⟩ := hcalled [.vector [.scalar .path "/s"], .scalar .int32 5] (by decide)
    obtain ⟨q, ⟨k, v, s, hv, hs, hq, -⟩, hcall⟩ := hmissed fun hall => by
      obtain ⟨o, a, ha, hget, -⟩ := hall _ List.mem_cons_self "/s"
        (.item List.mem_cons_self (.path "/s"))
      cases ha
      cases hget
    -- only the first argument is declared, and there is one path in it
    cases k with
    | succ k => cases hs
    | zero =>
        cases hv
        cases hs
        cases hq with
        | item hx hq =>
            obtain rfl := List.mem_singleton.1 hx
            cases hq
            exact hcall

end Bus

end ObjectBus
