import ObjectBus.Proofs.Trie.Requests

/-!
# Which branches a trie has

A branch is there only because something is stored in it. Storing makes the branches on the way, and
removing drops those that are bare then, so no run of requests leaves a branch behind that leads
nowhere, or cuts one off that still leads to a value.

Whoever looks at the names of the branches at an address (`Trie.branchNames`) therefore sees what is
stored below it, as the plain map has it, and nothing else (`Trie.branches_lead_to_values`). What a run
keeps for this is that the trie is tidy; everything else is said of one tidy trie.
-/

set_option autoImplicit false

namespace ObjectBus

namespace Trie

variable {α : Type}

/-! ## One tidy trie -/

/-- A value below a branch is stored in it or in one of its own branches. -/
theorem value_or_child_of_find? {u : Trie α} {ds : List String} {x : α} (h : u.find? ds = some x) :
    u.value.isSome = true ∨
      ∃ c w es, Entries.get? c u.children = some w ∧ w.find? es = some x := by
  obtain ⟨v, ch⟩ := u
  cases ds with
  | nil =>
      rw [find?_nil] at h
      exact Or.inl (by rw [value, h]; rfl)
  | cons c es =>
      rw [find?_cons] at h
      obtain ⟨w, hw, hx⟩ := Option.bind_eq_some_iff.1 h
      exact Or.inr ⟨c, w, es, hw, hx⟩

/-- The branches of an address have the names under which the trie goes on. -/
theorem mem_branchNames_iff_branch? {t : Trie α} {a : Address} {c : String} :
    c ∈ t.branchNames a ↔ ∃ w, t.branch? (a.components ++ [c]) = some w := by
  rw [branchNames, branch?_append]
  cases t.branch? a.components with
  | none => simp
  | some u =>
      show c ∈ Entries.keys u.children ↔ ∃ w, u.branch? [c] = some w
      rw [Entries.mem_keys_iff]
      simp only [branch?]
      cases Entries.get? c u.children with
      | none => simp
      | some w => simp

/-- **A tidy trie goes on to where something is stored, or below it**, and nowhere else. -/
theorem Tidy.exists_branch?_iff {t : Trie α} (h : t.Tidy) {cs : List String} (hne : cs ≠ []) :
    (∃ w, t.branch? cs = some w) ↔
      ∃ b, (t.get? b).isSome = true ∧ b.isWithin ⟨cs⟩ = true := by
  constructor
  · rintro ⟨w, hw⟩
    obtain ⟨ds, x, hx⟩ := h.exists_find?_of_branch hw hne
    refine ⟨⟨cs ++ ds⟩, ?_, ?_⟩
    · rw [get?_eq_find?, hx]
      rfl
    · exact Address.isWithin_iff.2 (List.prefix_append _ _)
  · rintro ⟨b, hb, hwithin⟩
    obtain ⟨x, hx⟩ := Option.isSome_iff_exists.1 hb
    obtain ⟨ds, hds⟩ := Address.isWithin_iff.1 hwithin
    rw [get?_eq_find?, ← hds, find?_append] at hx
    obtain ⟨w, hw, -⟩ := Option.bind_eq_some_iff.1 hx
    exact ⟨w, hw⟩

/-- **A tidy trie has a branch where something is stored in it or below it.** -/
theorem Tidy.mem_branchNames_iff {t : Trie α} (h : t.Tidy) {a : Address} {c : String} :
    c ∈ t.branchNames a ↔
      ∃ b, (t.get? b).isSome = true ∧ b.isWithin ⟨a.components ++ [c]⟩ = true := by
  rw [mem_branchNames_iff_branch?]
  exact h.exists_branch?_iff (by simp)

/-- The names of branches come in strictly increasing order. -/
theorem Tidy.sorted_branchNames {t : Trie α} (h : t.Tidy) (a : Address) :
    (t.branchNames a).Pairwise fun c d => compare c d = .lt := by
  rw [branchNames]
  split
  · exact List.Pairwise.nil
  · next u hu => exact Entries.sorted_iff_keys.1 (h _ u hu).1

/-- The branches depend only on where something is stored, not on what. -/
theorem Tidy.branchNames_congr {β : Type} {t : Trie α} {u : Trie β} (ht : t.Tidy) (hu : u.Tidy)
    (h : ∀ a, (t.get? a).isSome = (u.get? a).isSome) (a : Address) :
    t.branchNames a = u.branchNames a := by
  have hne : ∀ {c d : String}, compare c d = .lt → c ≠ d := by
    rintro c _ hlt rfl
    rw [Std.ReflOrd.compare_self] at hlt
    cases hlt
  have hnodup : ∀ {γ : Type} {v : Trie γ}, v.Tidy → (v.branchNames a).Nodup :=
    fun hv => (hv.sorted_branchNames a).imp hne
  refine List.Perm.eq_of_pairwise (fun c d _ _ hcd hdc => ?_) (ht.sorted_branchNames a)
    (hu.sorted_branchNames a) ?_
  · rw [Std.OrientedCmp.gt_of_lt hcd] at hdc
    cases hdc
  · refine (List.perm_ext_iff_of_nodup (hnodup ht) (hnodup hu)).2 fun c => ?_
    simp only [ht.mem_branchNames_iff, hu.mem_branchNames_iff, h]

/-! ## Runs -/

/-- **No dead branches.** Whatever was asked of a trie that was empty at first, every branch below the
top has a value or goes on to one that has. So the names of the branches at an address are, in strictly
increasing order and each once, the components behind which the plain map has a value. -/
theorem branches_lead_to_values (rs : List (Request α)) (h : ∀ r ∈ rs, r.Proper) :
    (∀ cs u, cs ≠ [] → (afterRequests rs).branch? cs = some u →
      u.value.isSome = true ∨
        ∃ c w ds x, Entries.get? c u.children = some w ∧ w.find? ds = some x) ∧
    ∀ a, ((afterRequests rs).branchNames a).Pairwise (fun c d => compare c d = .lt) ∧
      ∀ c, c ∈ (afterRequests rs).branchNames a ↔
        ∃ b, (mapAfter rs b).isSome = true ∧ b.isWithin ⟨a.components ++ [c]⟩ = true := by
  have hrep := represents_afterRequests h
  refine ⟨fun cs u hne hu => ?_, fun a => ⟨hrep.tidy.sorted_branchNames a, fun c => ?_⟩⟩
  · obtain ⟨ds, x, hx⟩ := hrep.tidy.exists_find?_of_branch hu hne
    rw [find?_append, hu] at hx
    rcases value_or_child_of_find? hx with hvalue | ⟨c, w, es, hw, hfound⟩
    · exact Or.inl hvalue
    · exact Or.inr ⟨c, w, es, x, hw, hfound⟩
  · simp only [hrep.tidy.mem_branchNames_iff, hrep.get?]

/-- A run that removes a value deep down, next to another one, and then the value above both: one
branch goes and takes the one above it along, the other stays, and nothing happens where nothing is
stored. -/
def prunedRun : List (Request Nat) :=
  [.insert ⟨["a", "b", "d"]⟩ 1, .insert ⟨["a", "c"]⟩ 2, .insert ⟨["a"]⟩ 3, .insert ⟨["e", "f"]⟩ 4,
    .remove ⟨["a", "b", "d"]⟩, .remove ⟨["a"]⟩, .remove ⟨["e"]⟩]

theorem branches_lead_to_values_after_pruning :
    (∀ r ∈ prunedRun, r.Proper) ∧
      (afterRequests prunedRun).branchNames ⟨["a"]⟩ = ["c"] ∧
      (afterRequests prunedRun).branchNames ⟨[]⟩ = ["a", "e"] ∧
      ¬∃ b, (mapAfter prunedRun b).isSome = true ∧ b.isWithin ⟨["a", "b"]⟩ = true := by
  have hproper : ∀ r ∈ prunedRun, r.Proper := by decide
  have hnames := ((branches_lead_to_values prunedRun hproper).2 ⟨["a"]⟩).2 "b"
  refine ⟨hproper, by decide, by decide, ?_⟩
  exact fun hstored => absurd (hnames.2 hstored) (by decide)

end Trie

end ObjectBus
