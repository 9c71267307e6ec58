import ObjectBus.Bus.Members
import ObjectBus.Proofs.Native.Mismatch

/-!
# Calling native code with values

A function wraps a native closure. On the way in, the values of a call are decoded as the argument
pack; on the way out, what the closure returns is split into positional results, in a way that
depends on what kind of type it is (`ReturnType`): nothing at all, one value, the fields of a tuple,
or any of these behind a result that can be an error. The types that are declared and the values
that are made are computed apart from each other; they agree (`ReturnType.matches_encode`).

That the closure is run once, or not at all, is told by a closure that writes down what it is run
with (`Closure.recorded`) and does the same as before otherwise. The main result is `call_checked`:
who is admitted, what an admitted call does, what a refused one is told, and what results look like.
The functions of the bus are such closures (`Bus.callFunction_eq_call`).
-/

set_option autoImplicit false

namespace ObjectBus

/-! ## What is returned -/

/-- **The types that a native closure can return**: nothing, a value, or a result that can be an
error in place of what it is a result of. -/
inductive ReturnType where
  | nothing
  | value (type : Native)
  | fallible (type : ReturnType)

namespace ReturnType

/-- The type that a return type stands for. An error is kept as its text. -/
@[reducible] def Carrier : ReturnType → Type
  | nothing => Unit
  | value t => t.Carrier
  | fallible r => Except String r.Carrier

/-- The native types of the positional results. -/
@[reducible] def types : ReturnType → List Native
  | nothing => []
  | value t => t.results
  | fallible r => r.types

/-- **The declared shapes of the results**: a tuple declares one for each field. -/
def shapes : ReturnType → List Shape
  | nothing => []
  | value (.scalar s) => [(Native.scalar s).shape]
  | value (.vector t) => [(Native.vector t).shape]
  | value (.map k v) => [(Native.map k v).shape]
  | value (.tuple ts) => Native.shapes ts
  | fallible r => r.shapes

/-- **The results that a returned value makes**, or the error that it is. -/
def encode : (r : ReturnType) → r.Carrier → Except String (List Value)
  | nothing, () => .ok []
  | value (.scalar s), x => .ok [(Native.scalar s).encode x]
  | value (.vector t), xs => .ok [(Native.vector t).encode xs]
  | value (.map k v), es => .ok [(Native.map k v).encode es]
  | value (.tuple ts), xs => .ok (Native.encodePack ts xs)
  | fallible _, .error text => .error text
  | fallible r, .ok y => r.encode y

/-- The native results in a returned value, or the error that it is. -/
def split : (r : ReturnType) → r.Carrier → Except String (Native.Pack r.types)
  | nothing, () => .ok ()
  | value t, x => .ok (t.toResults x)
  | fallible _, .error text => .error text
  | fallible r, .ok y => r.split y

/-- What is declared are the shapes of the results. -/
theorem shapes_types (r : ReturnType) : Native.shapes r.types = r.shapes := by
  induction r with
  | nothing => simp [shapes]
  | value t => cases t <;> simp [types, shapes, Native.results]
  | fallible r ih => rw [shapes, ← ih]

/-- What is made are the encodings of the results. -/
theorem encode_eq (r : ReturnType) (y : r.Carrier) :
    r.encode y = (r.split y).map (Native.encodePack r.types) := by
  induction r with
  | nothing => simp [encode, split, types, Except.map]
  | value t => cases t <;> simp [encode, split, types, Native.results, Native.toResults, Except.map]
  | fallible r ih =>
      cases y with
      | error text => rfl
      | ok y => rw [encode, split, ih]

/-- **Results have the declared shapes**, position by position, and are as many. -/
theorem matches_encode {r : ReturnType} {y : r.Carrier} {vs : List Value}
    (h : r.encode y = .ok vs) :
    List.Forall₂ (fun v t => v.matches? t = true) vs r.shapes := by
  rw [encode_eq] at h
  cases hys : r.split y with
  | error text => simp [hys, Except.map] at h
  | ok ys =>
      simp only [hys, Except.map, Except.ok.injEq] at h
      rw [← h, ← shapes_types]
      exact Native.matches_encodePack r.types ys

end ReturnType

/-! ## What is not decoded -/

namespace Native

/-- A value that is not decoded is a mismatch of types. -/
theorem mismatch_of_decode (t : Native) (v : Value) {e : ValueError} (h : t.decode v = .error e) :
    ∃ expected found, e = .typeMismatch expected found := by
  obtain ⟨_, expected, found, -, rfl⟩ := namesFirstMisfit h
  exact ⟨expected, found.kind, rfl⟩

/-- **The first value that does not have its shape**: it stands at position `k`, all values before
it have theirs, and `found` is what was found in it where `expected` was to be. -/
structure MismatchAt (ts : List Native) (vs : List Value) (k : Nat) (expected : Shape)
    (found : Kind) : Prop where
  before : ∀ j < k, ∀ t v, ts[j]? = some t → vs[j]? = some v → v.matches? t.shape = true
  here : ∃ t v, ts[k]? = some t ∧ vs[k]? = some v ∧ v.matches? t.shape = false ∧
    t.decode v = .error (.typeMismatch expected found)

/-- Values that are not decoded, though they are as many as there are positions, are not because of
the first one that does not have its shape. -/
theorem exists_mismatchAt {ts : List Native} {vs : List Value} {e : ValueError}
    (hlen : vs.length = ts.length) (h : decodeFields ts vs = .error e) :
    ∃ k expected found, e = .typeMismatch expected found ∧ MismatchAt ts vs k expected found := by
  obtain ⟨k, t, v, ht, hv, hdec, hbefore⟩ := exists_first_of_decodeFields_eq_error hlen h
  obtain ⟨expected, found, rfl⟩ := mismatch_of_decode t v hdec
  have hmisfit : v.matches? t.shape = false := by
    rw [← Bool.not_eq_true, ← exists_decode_iff, hdec]
    rintro ⟨x, hx⟩
    cases hx
  refine ⟨k, expected, found, rfl, fun j hj s u hs hu => ?_, t, v, ht, hv, hmisfit, hdec⟩
  obtain ⟨s', hs', hmatch⟩ := hbefore j hj u hu
  rw [hs] at hs'
  cases hs'
  exact hmatch

end Native

/-! ## Closures -/

/-- **A native closure**, as it is before it is wrapped. It works on a state, and is given what it
is a method of, while that is there; a closure that is no method has a target that is always there.
It may panic, which is its outcome then. -/
structure Closure (args : List Native) (r : ReturnType) (σ : Type) where
  Target : Type
  target? : σ → Option Target
  body : Target → Native.Pack args → σ → Except String r.Carrier × σ

namespace Closure

variable {args : List Native} {r : ReturnType} {σ : Type}

/-- How a closure ends, as the call sees it: its results are taken apart, its error is its own, and
a panic is not an error. -/
def outcome : Except String r.Carrier → Except (Failure String) (Native.Pack r.types)
  | .error text => .error (.panic text)
  | .ok y => (r.split y).mapError .error

/-- **Calls a wrapped closure with values.** -/
def call (c : Closure args r σ) (values : List Value) (s : σ) :
    Except (Failure BusError) (List Value) × σ :=
  invokeTyped args r.types c.target? (fun t xs s => (outcome (c.body t xs s).1, (c.body t xs s).2))
    values s

/-- **The same closure, writing down what it is run with.** -/
def recorded (c : Closure args r σ) : Closure args r (σ × List (Native.Pack args)) where
  Target := c.Target
  target? s := c.target? s.1
  body t xs s := ((c.body t xs s.1).1, (c.body t xs s.1).2, s.2 ++ [xs])

/-- **What a caller is answered** when the closure was run: the results, the error that the closure
returned, or its panic. -/
def answer : Except String r.Carrier → Except (Failure BusError) (List Value)
  | .error text => .error (.panic text)
  | .ok y =>
      match r.encode y with
      | .ok vs => .ok vs
      | .error text => .error (.error (.callable text))

/-- **What it takes for the closure to be run**: as many values as arguments, each with the declared
shape, and the target there. -/
structure Admits (c : Closure args r σ) (values : List Value) (s : σ) : Prop where
  length : values.length = args.length
  fits : List.Forall₂ (fun v t => v.matches? t = true) values (Native.shapes args)
  target : (c.target? s).isSome = true

/-- **What a caller is told** when the closure is not run. The number of values comes first, then
the values in their order, and the target last. -/
inductive Refuses (c : Closure args r σ) (values : List Value) (s : σ) : BusError → Prop
  | count (h : values.length ≠ args.length) :
      Refuses c values s (.argumentCount args.length values.length)
  | misfit {k : Nat} {expected : Shape} {found : Kind} (hlen : values.length = args.length)
      (h : Native.MismatchAt args values k expected found) :
      Refuses c values s (.typeMismatch expected found)
  | gone (hfits : List.Forall₂ (fun v t => v.matches? t = true) values (Native.shapes args))
      (h : c.target? s = none) :
      Refuses c values s (.nullTarget "method target has been dropped")

variable {c : Closure args r σ} {values : List Value} {s : σ}

/-- The answer is made from the outcome. -/
theorem answer_eq (result : Except String r.Carrier) : answer result =
    match (outcome result : Except (Failure String) (Native.Pack r.types)) with
    | .error e => .error e.ofCallable
    | .ok ys => .ok (Native.encodePack r.types ys) := by
  cases result with
  | error text => rfl
  | ok y =>
      rw [answer, outcome, ReturnType.encode_eq]
      cases r.split y <;> rfl

/-- **A call that is decoded and has its target runs the closure once.** -/
theorem call_of_fit {xs : Native.Pack args} {t : c.Target}
    (hxs : Native.decodePack args values = .ok xs) (ht : c.target? s = some t) :
    c.call values s = (answer (c.body t xs s).1, (c.body t xs s).2) := by
  unfold call invokeTyped
  rw [hxs, ht, answer_eq]
  dsimp only
  cases outcome (c.body t xs s).1 <;> rfl

/-- **A call that is not admitted** runs nothing, and is told why. -/
theorem call_of_not_admits (h : ¬c.Admits values s) :
    ∃ e, c.call values s = (.error (.error e), s) ∧ c.Refuses values s e := by
  unfold call invokeTyped
  cases hxs : Native.decodePack args values with
  | error e =>
      refine ⟨e.toBusError, rfl, ?_⟩
      rw [Native.decodePack] at hxs
      split at hxs
      · next hlen =>
          obtain ⟨k, expected, found, rfl, hk⟩ := Native.exists_mismatchAt hlen hxs
          exact .misfit hlen hk
      · next hlen =>
          cases hxs
          exact .count hlen
  | ok xs =>
      have hfits := Native.exists_decodePack_iff.1 ⟨xs, hxs⟩
      cases ht : c.target? s with
      | none => exact ⟨_, rfl, .gone hfits ht⟩
      | some t =>
          have hlen := ((Native.exists_decodeFields_iff args values).2 hfits).1
          exact absurd ⟨hlen, hfits, by rw [ht]; rfl⟩ h

/-- An admitted call is decoded and has its target. -/
theorem Admits.exists_run (h : c.Admits values s) :
    ∃ xs t, Native.decodePack args values = .ok xs ∧ c.target? s = some t := by
  obtain ⟨xs, hxs⟩ := Native.exists_decodePack_iff.2 h.fits
  obtain ⟨t, ht⟩ := Option.isSome_iff_exists.1 h.target
  exact ⟨xs, t, hxs, ht⟩

/-- **Writing down what a closure is run with** changes neither the answer nor the state. -/
theorem call_eq_recorded (log : List (Native.Pack args)) :
    c.call values s =
      ((c.recorded.call values (s, log)).1, (c.recorded.call values (s, log)).2.1) := by
  cases hxs : Native.decodePack args values with
  | error e => simp only [call, invokeTyped, hxs]
  | ok xs =>
      cases ht : c.target? s with
      | none =>
          have ht' : c.recorded.target? (s, log) = none := ht
          simp only [call, invokeTyped, hxs, ht, ht']
      | some t =>
          rw [call_of_fit hxs ht, call_of_fit (c := c.recorded) (s := (s, log)) hxs ht]
          rfl

/-- It asks for nothing more. -/
theorem admits_recorded_iff {log : List (Native.Pack args)} :
    c.recorded.Admits values (s, log) ↔ c.Admits values s :=
  ⟨fun h => ⟨h.length, h.fits, h.target⟩, fun h => ⟨h.length, h.fits, h.target⟩⟩

/-- Nor does it change what a caller is told. -/
theorem Refuses.of_recorded {log : List (Native.Pack args)} {e : BusError}
    (h : c.recorded.Refuses values (s, log) e) : c.Refuses values s e := by
  cases h with
  | count h => exact .count h
  | misfit hlen h => exact .misfit hlen h
  | gone hfits h => exact .gone hfits h

/-- Results have the declared shapes. -/
theorem matches_answer {result : Except String r.Carrier} {vs : List Value}
    (h : answer result = .ok vs) : List.Forall₂ (fun v t => v.matches? t = true) vs r.shapes := by
  cases result with
  | error text => cases h
  | ok y =>
      rw [answer] at h
      cases hy : r.encode y with
      | error text => simp [hy] at h
      | ok ws =>
          simp only [hy, Except.ok.injEq] at h
          exact h ▸ ReturnType.matches_encode hy

end Closure

/-- **Calls of native code are checked.** The closure is run if and only if the call is admitted,
and then once, on the decoded arguments: so says what it writes down. Otherwise nothing is changed
and the caller is told the first thing that is wrong. An answer without an error has the declared
shapes. -/
theorem call_checked {args : List Native} {r : ReturnType} {σ : Type} (c : Closure args r σ)
    (values : List Value) (s : σ) (log : List (Native.Pack args)) :
    (c.Admits values s → ∃ xs t, Native.decodePack args values = .ok xs ∧ c.target? s = some t ∧
      c.recorded.call values (s, log) =
        (Closure.answer (c.body t xs s).1, (c.body t xs s).2, log ++ [xs])) ∧
    (¬c.Admits values s → ∃ e, c.Refuses values s e ∧
      c.recorded.call values (s, log) = (.error (.error e), s, log)) ∧
    (∀ vs, (c.call values s).1 = .ok vs →
      List.Forall₂ (fun v t => v.matches? t = true) vs r.shapes) ∧
    c.call values s =
      ((c.recorded.call values (s, log)).1, (c.recorded.call values (s, log)).2.1) := by
  refine ⟨fun hadmits => ?admitted, fun hnot => ?refused, fun vs hvs => ?results,
    Closure.call_eq_recorded log⟩
  case admitted =>
    obtain ⟨xs, t, hxs, ht⟩ := hadmits.exists_run
    exact ⟨xs, t, hxs, ht, Closure.call_of_fit (c := c.recorded) (s := (s, log)) hxs ht⟩
  case refused =>
    obtain ⟨e, hcall, hrefuses⟩ := Closure.call_of_not_admits (c := c.recorded) (s := (s, log))
      fun h => hnot (Closure.admits_recorded_iff.1 h)
    exact ⟨e, hrefuses.of_recorded, hcall⟩
  case results =>
    by_cases hadmits : c.Admits values s
    · obtain ⟨xs, t, hxs, ht⟩ := hadmits.exists_run
      rw [Closure.call_of_fit hxs ht] at hvs
      exact Closure.matches_answer hvs
    · obtain ⟨e, hcall, -⟩ := Closure.call_of_not_admits hadmits
      rw [hcall] at hvs
      cases hvs

/-! ## The functions of the bus -/

/-- The outcome of a routine as what a closure gives: a panic apart from a result that can be an
error. -/
def Routine.outcome {α : Type} : Except (Failure String) α → Except String (Except String α)
  | .error (.panic text) => .error text
  | .error (.error text) => .ok (.error text)
  | .ok ys => .ok (.ok ys)

/-- The routine of a function as a closure, which works on the bus. -/
def Function.closure (h : Host) (f : Function) :
    Closure f.routine.args (.fallible (.value (.tuple f.routine.returns))) Bus where
  Target := f.routine.Subject
  target? := f.routine.subject?
  body t xs b := (Routine.outcome (f.routine.run h t xs b).1, (f.routine.run h t xs b).2)

/-- **A call of a function is a call of its closure**, and declares the results of the closure. -/
theorem Bus.callFunction_eq_call (h : Host) (f : Function) (args : List Value) (b : Bus) :
    b.callFunction h f args = (f.closure h).call args b ∧
      f.returnTypes = (ReturnType.fallible (.value (.tuple f.routine.returns))).shapes := by
  refine ⟨?_, ReturnType.shapes_types (.fallible (.value (.tuple f.routine.returns)))⟩
  have hrun : f.routine.run h = fun t xs b =>
      (Closure.outcome ((f.closure h).body t xs b).1, ((f.closure h).body t xs b).2) := by
    funext t xs b
    simp only [Function.closure]
    rcases f.routine.run h t xs b with ⟨(text | text) | ys, b'⟩ <;> rfl
  show invokeTyped _ _ _ (f.routine.run h) args b = _
  rw [hrun]
  rfl

/-- A method that adds to the total of its target and returns the totals before and after. -/
def adder : Function where
  argNames := ["n", "times"]
  returnNames := ["before", "after"]
  routine := .method .add 7

/-- A bus with the target of the method. -/
def adderBus : Bus where
  targets := [(7, { step := 3, total := 10 })]
  next := 8
  desk := { targets := [("t", { id := 7, isHeld := true })] }

/-- Two numbers are added and both totals returned. A text in the second place is the first argument
that does not match, and nothing is added. -/
theorem call_checked_adder :
    (adder.closure .inert).Admits [.scalar .uint32 2, .scalar .uint32 4] adderBus ∧
    (∃ xs, (adder.closure .inert).recorded.call [.scalar .uint32 2, .scalar .uint32 4]
      (adderBus, []) =
        (.ok [.scalar .uint32 10, .scalar .uint32 18],
          { adderBus with targets := [(7, { step := 3, total := 18 })] }, [xs])) ∧
    ¬(adder.closure .inert).Admits [.scalar .uint32 2, .scalar .string "4"] adderBus ∧
    (adder.closure .inert).Refuses [.scalar .uint32 2, .scalar .string "4"] adderBus
      (.typeMismatch (.scalar .uint32) (.scalar .string)) := by
  have hadmits : (adder.closure .inert).Admits [.scalar .uint32 2, .scalar .uint32 4] adderBus :=
    ⟨rfl, .cons rfl (.cons rfl .nil), rfl⟩
  have hnot : ¬(adder.closure .inert).Admits [.scalar .uint32 2, .scalar .string "4"] adderBus := by
    rintro ⟨-, _ | ⟨-, _ | ⟨h, -⟩⟩, -⟩
    cases h
  obtain ⟨xs, t, hxs, ht, hcall⟩ := (call_checked (adder.closure .inert) _ adderBus []).1 hadmits
  obtain ⟨e, hrefuses, hrefused⟩ := (call_checked (adder.closure .inert) _ adderBus []).2.1 hnot
  refine ⟨hadmits, ⟨xs, ?_⟩, hnot, ?_⟩
  · cases hxs
    cases ht
    exact hcall.trans rfl
  · -- what the caller is told is the answer of the call
    cases congrArg Prod.fst hrefused
    exact hrefuses

end ObjectBus
