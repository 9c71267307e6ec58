import Mathlib.Data.List.Induction
import Mathlib.Data.Finset.Card
import ObjectBus.Proofs.Trie.Listing

/-!
# A trie is a map

What may be asked of a trie, as data (`Trie.Request`), and what it answers. Beside it stands a plain
map, a function from addresses to what is stored there: `Request.change` says what becomes of the map,
and `Request.Answered` which answers are right for it. The number of stored values is that of the
addresses where the map has one, and the iteration shows each of them once, in the order of addresses.

Along every run of requests from the empty trie, each answer is the one of the map
(`Trie.requests_refine_map`). What carries the induction is `Trie.Represents`: the trie finds what the
map has, it is tidy, so that no branch hides a value or leads nowhere, and it stores only at addresses.
-/

set_option autoImplicit false

namespace ObjectBus

namespace Trie

variable {α : Type}

/-- **What may be asked of a trie.** -/
inductive Request (α : Type) where
  | insert (a : Address) (x : α)
  | getOrInsert (a : Address) (x : α)
  | update (a : Address) (f : α → α)
  | remove (a : Address)
  | get (a : Address)
  | contains (a : Address)
  | len
  | isEmpty
  | iter

/-- **What a trie answers.** -/
inductive Reply (α : Type) where
  | found (x : Option α)
  | value (x : α)
  | holds (b : Bool)
  | number (n : Nat)
  | listing (es : List (Address × α))

namespace Request

/-- **A request is carried out on a trie.** -/
def carryOut : Request α → Trie α → Reply α × Trie α
  | .insert a x, t => (.found (t.insert a x).1, (t.insert a x).2)
  | .getOrInsert a x, t => (.value (t.getOrPut a x).1, (t.getOrPut a x).2)
  | .update a f, t => (.found (t.update a f).1, (t.update a f).2)
  | .remove a, t => (.found (t.take a).1, (t.take a).2)
  | .get a, t => (.found (t.get? a), t)
  | .contains a, t => (.holds (t.has a), t)
  | .len, t => (.number t.size, t)
  | .isEmpty, t => (.holds t.isEmpty, t)
  | .iter, t => (.listing t.toList, t)

/-- **What a request makes of a plain map.** Elsewhere the map stays as it is. -/
def change : Request α → (Address → Option α) → Address → Option α
  | .insert a x, m => Function.update m a (some x)
  | .getOrInsert a x, m => Function.update m a (some ((m a).getD x))
  | .update a f, m => Function.update m a ((m a).map f)
  | .remove a, m => Function.update m a none
  | _, m => m

/-- **Which answers a plain map gives.** -/
def Answered : Request α → (Address → Option α) → Reply α → Prop
  | .insert a _, m, r => r = .found (m a)
  | .getOrInsert a x, m, r => r = .value ((m a).getD x)
  | .update a f, m, r => r = .found ((m a).map f)
  | .remove a, m, r => r = .found (m a)
  | .get a, m, r => r = .found (m a)
  | .contains a, m, r => r = .holds (m a).isSome
  | .len, m, r => ∃ s : Finset Address, (∀ a, a ∈ s ↔ (m a).isSome) ∧ r = .number s.card
  | .isEmpty, m, r => ∃ b, (b = true ↔ ∀ a, m a = none) ∧ r = .holds b
  | .iter, m, r => ∃ es : List (Address × α), (∀ a x, (a, x) ∈ es ↔ m a = some x) ∧
      (es.Pairwise fun e f => compare e.1 f.1 = .lt) ∧ r = .listing es

/-- A request may store at an address only. -/
def Proper : Request α → Prop
  | .insert a _ => a.Proper
  | .getOrInsert a _ => a.Proper
  | _ => True

instance (r : Request α) : Decidable r.Proper :=
  match r with
  | .insert a _ => inferInstanceAs (Decidable a.Proper)
  | .getOrInsert a _ => inferInstanceAs (Decidable a.Proper)
  | .update _ _ => isTrue trivial
  | .remove _ => isTrue trivial
  | .get _ => isTrue trivial
  | .contains _ => isTrue trivial
  | .len => isTrue trivial
  | .isEmpty => isTrue trivial
  | .iter => isTrue trivial

end Request

/-- The trie after a run of requests, the first one in the list asked first. -/
def afterRequests (rs : List (Request α)) : Trie α := rs.foldl (fun t r => (r.carryOut t).2) empty

/-- The plain map after a run of requests. -/
def mapAfter (rs : List (Request α)) : Address → Option α :=
  rs.foldl (fun m r => r.change m) fun _ => none

/-- **A trie stands for a map**: it finds what the map has, and it is in order. -/
structure Represents (t : Trie α) (m : Address → Option α) : Prop where
  tidy : t.Tidy
  spelled : t.Spelled
  get? : ∀ a, t.get? a = m a

namespace Represents

variable {t : Trie α} {m : Address → Option α}

theorem empty : Represents (empty : Trie α) fun _ => none where
  tidy := tidy_empty
  spelled := by
    intro cs x hx
    rw [find?_empty] at hx
    cases hx
  get? := get?_empty

/-! ## What one request preserves -/

/-- Storing is known by what is found afterwards. -/
theorem put (h : Represents t m) {a : Address} (ha : a.Proper) (x : α) :
    Represents (t.put a x) (Function.update m a (some x)) where
  tidy := tidy_put h.tidy a x
  spelled := by
    intro cs y hy
    by_cases hcs : cs = a.components
    · rw [hcs]
      exact ha
    · refine h.spelled cs y ?_
      rw [← hy]
      exact (find?_putBelow_of_ne x t hcs).symm
  get? := by
    intro b
    by_cases hb : b = a
    · rw [hb, get?_put_self, Function.update_self]
    · rw [get?_put_of_ne hb, Function.update_of_ne hb, h.get? b]

theorem remove (h : Represents t m) (a : Address) :
    Represents (t.remove a) (Function.update m a none) where
  tidy := tidy_remove h.tidy a
  spelled := by
    intro cs x hx
    refine h.spelled cs x ?_
    have hget : (t.remove a).get? ⟨cs⟩ = some x := hx
    have hne : (⟨cs⟩ : Address) ≠ a := by
      rintro rfl
      rw [get?_remove_self h.tidy] at hget
      cases hget
    rw [get?_remove_of_ne h.tidy hne] at hget
    exact hget
  get? := by
    intro b
    by_cases hb : b = a
    · rw [hb, get?_remove_self h.tidy, Function.update_self]
    · rw [get?_remove_of_ne h.tidy hb, Function.update_of_ne hb, h.get? b]

/-- What is stored may be stored again. -/
theorem unchanged (h : Represents t m) {a : Address} {o : Option α} (ho : t.get? a = o) :
    Represents t (Function.update m a o) := by
  have hself : Function.update m a o = m := by rw [← ho, h.get? a, Function.update_eq_self]
  rw [hself]
  exact h

/-- A value that is stored already has a proper address. -/
theorem proper (h : Represents t m) {a : Address} {x : α} (hx : t.get? a = some x) : a.Proper :=
  h.spelled a.components x hx

/-- **One request** changes the trie as it changes the map. -/
theorem carryOut (h : Represents t m) {r : Request α} (hr : r.Proper) :
    Represents (r.carryOut t).2 (r.change m) := by
  cases r with
  | insert a x => exact h.put hr x
  | getOrInsert a x =>
      show Represents (t.getOrPut a x).2 (Function.update m a (some ((m a).getD x)))
      rw [← h.get? a]
      cases ha : t.get? a with
      | none => simpa [getOrPut, ha] using h.put hr x
      | some y => simpa [getOrPut, ha] using h.unchanged ha
  | update a f =>
      show Represents (t.adjust a f) (Function.update m a ((m a).map f))
      rw [← h.get? a]
      cases ha : t.get? a with
      | none => simpa [adjust, ha] using h.unchanged ha
      | some y => simpa [adjust, ha] using h.put (h.proper ha) (f y)
  | remove a => exact h.remove a
  | get a => exact h
  | contains a => exact h
  | len => exact h
  | isEmpty => exact h
  | iter => exact h

/-! ## What is answered -/

/-- What the iteration shows is what the map has. -/
theorem mem_toList_iff (h : Represents t m) {a : Address} {x : α} :
    (a, x) ∈ t.toList ↔ m a = some x := by
  rw [Trie.mem_toList_iff h.tidy h.spelled, h.get? a]

/-- The iteration shows as many values as the trie counts. -/
theorem length_toList (h : Represents t m) : t.toList.length = t.size := by
  rw [toList_eq h.tidy h.spelled, List.length_map, size_eq]

/-- The addresses where something is stored, as many as the trie counts. -/
theorem exists_addresses (h : Represents t m) :
    ∃ s : Finset Address, (∀ a, a ∈ s ↔ (m a).isSome) ∧ t.size = s.card := by
  have hnodup : (Entries.keys t.toList).Nodup := (sorted_toList h.tidy h.spelled).nodup
  refine ⟨(Entries.keys t.toList).toFinset, fun a => ?_, ?_⟩
  · rw [List.mem_toFinset, Entries.keys, List.mem_map, Option.isSome_iff_exists]
    constructor
    · rintro ⟨⟨b, x⟩, hb, rfl⟩
      exact ⟨x, h.mem_toList_iff.1 hb⟩
    · rintro ⟨x, hx⟩
      exact ⟨(a, x), h.mem_toList_iff.2 hx, rfl⟩
  · calc
      t.size = t.toList.length := h.length_toList.symm
      _ = (Entries.keys t.toList).length := by rw [Entries.keys, List.length_map]
      _ = (Entries.keys t.toList).toFinset.card := (List.toFinset_card_of_nodup hnodup).symm

theorem isEmpty_iff (h : Represents t m) : t.isEmpty = true ↔ ∀ a, m a = none := by
  have hlist : t.isEmpty = true ↔ t.toList = [] := by
    rw [Trie.isEmpty_iff, toList_eq h.tidy h.spelled, List.map_eq_nil_iff]
  rw [hlist]
  constructor
  · intro hnil a
    cases ha : m a with
    | none => rfl
    | some x =>
        have hmem := h.mem_toList_iff.2 ha
        rw [hnil] at hmem
        cases hmem
  · intro hnone
    refine List.eq_nil_iff_forall_not_mem.2 fun e he => ?_
    have hsome := h.mem_toList_iff.1 he
    rw [hnone] at hsome
    cases hsome

/-- **A trie answers as the map for which it stands.** -/
theorem answered (h : Represents t m) (r : Request α) : r.Answered m (r.carryOut t).1 := by
  cases r with
  | insert a x => exact congrArg Reply.found (h.get? a)
  | getOrInsert a x =>
      show Reply.value (t.getOrPut a x).1 = .value ((m a).getD x)
      rw [← h.get? a]
      cases ha : t.get? a with
      | none => simp [getOrPut, ha]
      | some y => simp [getOrPut, ha]
  | update a f => exact congrArg (fun o => Reply.found (o.map f)) (h.get? a)
  | remove a => exact congrArg Reply.found (h.get? a)
  | get a => exact congrArg Reply.found (h.get? a)
  | contains a => exact congrArg (fun o => Reply.holds o.isSome) (h.get? a)
  | len =>
      obtain ⟨s, hs, hcard⟩ := h.exists_addresses
      exact ⟨s, hs, congrArg Reply.number hcard⟩
  | isEmpty => exact ⟨t.isEmpty, h.isEmpty_iff, rfl⟩
  | iter => exact ⟨t.toList, fun a x => h.mem_toList_iff, sorted_toList h.tidy h.spelled, rfl⟩

end Represents

/-! ## Runs -/

/-- **Along a run** the trie stands for the map. -/
theorem represents_afterRequests {rs : List (Request α)} (h : ∀ r ∈ rs, r.Proper) :
    Represents (afterRequests rs) (mapAfter rs) := by
  induction rs using List.reverseRecOn with
  | nil => exact Represents.empty
  | append_singleton rs r ih =>
      have hrs : ∀ q ∈ rs, q.Proper := fun q hq => h q (List.mem_append_left _ hq)
      have hr : r.Proper := h r (List.mem_append_right _ List.mem_cons_self)
      simpa [afterRequests, mapAfter] using (ih hrs).carryOut hr

/-- **A trie refines a map.** Whatever was asked of a trie that was empty at first, it answers the next
request as the plain map does of which the same was asked: an operation answers what was stored at its
address and changes nothing at another one, the size is the number of addresses with a value, the trie
is empty if and only if there are none, and the iteration yields every value once, with its address, in
strictly increasing order. -/
theorem requests_refine_map (rs : List (Request α)) (h : ∀ r ∈ rs, r.Proper) (r : Request α) :
    r.Answered (mapAfter rs) (r.carryOut (afterRequests rs)).1 :=
  (represents_afterRequests h).answered r

/-- A run at the root, at an address below it, and at one on the way that is free again at the end. -/
def nestedRun : List (Request Nat) :=
  [.insert ⟨[]⟩ 1, .insert ⟨["a", "b"]⟩ 2, .getOrInsert ⟨["a"]⟩ 3, .update ⟨["a", "b"]⟩ (· + 5),
    .remove ⟨["a"]⟩]

theorem requests_refine_map_on_nested :
    (∀ r ∈ nestedRun, r.Proper) ∧
      mapAfter nestedRun ⟨[]⟩ = some 1 ∧ mapAfter nestedRun ⟨["a"]⟩ = none ∧
      mapAfter nestedRun ⟨["a", "b"]⟩ = some 7 ∧
      Request.iter.Answered (mapAfter nestedRun)
        (Request.iter.carryOut (afterRequests nestedRun)).1 := by
  have hproper : ∀ r ∈ nestedRun, r.Proper := by decide
  refine ⟨hproper, by decide, by decide, by decide, ?_⟩
  exact requests_refine_map nestedRun hproper .iter

end Trie

end ObjectBus
