import ObjectBus.Proofs.Bus.Transparency

/-!
# Registering in turn, or not at all

A value that is attached has one name to register on many transports, and a node that is bound has
many names to register on one. Both are `Bus.registerEach`: pairs of a transport and a name are
registered in turn, and dropped again when one is refused.

Nothing is left behind by a refusal (`transport?_registerEach`). This needs that all registrations
are for live nodes (`Bus.Tenanted`): an address that a dead node left behind is taken over on the
way, and not given back.
-/

set_option autoImplicit false

namespace ObjectBus.Bus

/-- **All registrations are for live nodes**, on all live transports. -/
def Tenanted (b : Bus) : Prop :=
  ∀ t a k o, b.isLiveServer t = true → b.Registered t a k o →
    ∃ m, o = some m ∧ b.isLiveNode m = true

theorem Tenanted.loopback {b : Bus} (hb : b.Orderly) (hten : b.Tenanted) {t : TransportId}
    {l : Loopback} (ht : b.isLiveServer t = true) (hl : b.loopback? t = some l) :
    l.Tenanted b.isLiveNode := by
  intro a r hr
  obtain ⟨k, hk⟩ := (hb.loopbacks t l hl).exists_registers hr
  exact hten _ _ _ _ ht ⟨l, hl, hk⟩

/-- Drops names on transports, at the address of a node now. -/
def dropEach (h : Host) (n : NodeId) (cs : List (TransportId × String)) (b : Bus) : Bus :=
  cs.foldl (fun b c => b.dropAt h c.1 (b.addressText n c.1) c.2) b

/-- **Registers names on transports in turn.** `done` holds those that are registered already, the
last one first; they are dropped when one is refused. -/
def registerEach (h : Host) (n : NodeId) (done : List (TransportId × String)) :
    List (TransportId × String) → Bus → Except BusError Unit × Bus
  | [], b => (.ok (), b)
  | c :: cs, b =>
      match b.callAdd h c.1 n c.2 with
      | (.ok (), b) => b.registerEach h n (c :: done) cs
      | (.error e, b) => (.error e, b.dropEach h n done)

/-! ## The two uses -/

/-- What calls leave alone may be looked up again at every step. -/
theorem foldl_congr_called {ι : Type} {f g : Bus → ι → Bus} {b : Bus} (hb : b.Orderly)
    (xs : List ι) (hf : ∀ (c : Bus) (x : ι), c.Orderly → c.Called (f c x))
    (heq : ∀ (c : Bus) (x : ι), b.Called c → f c x = g c x) : xs.foldl f b = xs.foldl g b := by
  have hall : ∀ (xs : List ι) c, b.Called c → xs.foldl f c = xs.foldl g c := by
    intro xs
    induction xs with
    | nil => exact fun _ _ => rfl
    | cons x xs ih =>
        intro c hc
        rw [List.foldl_cons, List.foldl_cons, ← heq c x hc]
        exact ih _ (hc.trans (hf c x (hc.orderly hb)))
  exact hall xs b (Called.refl b)

theorem registerOnAll_eq (h : Host) (n : NodeId) (name : String) (done ts : List TransportId)
    (b : Bus) :
    b.registerOnAll h n name done ts =
      b.registerEach h n (done.map fun t => (t, name)) (ts.map fun t => (t, name)) := by
  induction ts generalizing done b with
  | nil => rfl
  | cons t ts ih =>
      rw [registerOnAll, List.map_cons, registerEach]
      cases b.callAdd h t n name with
      | mk result b' =>
          cases result with
          | ok u => exact ih (t :: done) b'
          | error e =>
              refine congrArg (Prod.mk _) ?_
              rw [undoAttach, dropEach, List.foldl_map]
              rfl

theorem registerAllOn_eq (h : Host) (n : NodeId) (t : TransportId) (done is : List InterfaceId)
    {b : Bus} (hb : b.Orderly) :
    b.registerAllOn h n t done is =
      b.registerEach h n (done.map fun i => (t, b.nameOf i))
        (is.map fun i => (t, b.nameOf i)) := by
  induction is generalizing done b with
  | nil => rfl
  | cons i is ih =>
      have hcalled := called_callAdd hb h t n (b.nameOf i)
      rw [registerAllOn, List.map_cons, registerEach]
      cases hres : b.callAdd h t n (b.nameOf i) with
      | mk result b' =>
          rw [hres] at hcalled
          have hb' := hcalled.orderly hb
          cases result with
          | ok u =>
              simp only
              rw [ih (i :: done) hb']
              simp only [hcalled.nameOf, List.map_cons]
          | error e =>
              refine congrArg (Prod.mk _) ?_
              rw [dropEach, List.foldl_map]
              have hnames : (fun (c : Bus) (i : InterfaceId) =>
                  c.dropAt h t (c.addressText n t) (b.nameOf i)) =
                  fun c i => c.dropAt h t (c.addressText n t) (b'.nameOf i) := by
                funext c i
                rw [hcalled.nameOf]
              rw [hnames]
              refine foldl_congr_called hb' done (fun c i hc => ?_) fun c i hc => ?_
              · exact (withdraws_dropAt hc h t _ _).called
              · rw [hc.addressText, hc.nameOf]

/-! ## Nothing is left behind -/

section Undo

variable {b b' : Bus} (h : Host)

theorem rootOf_congr (hsame : ∀ t, b'.transport? t = b.transport? t) (t : TransportId) :
    b'.rootOf t = b.rootOf t := by
  rw [rootOf, rootOf, hsame]

theorem transport?_dropAt_congr (hb : b.Orderly) (hb' : b'.Orderly)
    (hsame : ∀ t, b'.transport? t = b.transport? t) (t : TransportId) (text k : String)
    (u : TransportId) : (b'.dropAt h t text k).transport? u = (b.dropAt h t text k).transport? u := by
  cases ht : b.transport? t with
  | none =>
      rw [dropAt_of_none h ht, dropAt_of_none h ((hsame t).trans ht)]
      exact hsame u
  | some s =>
      rw [(dropAt_spec hb h ht text k).transport?,
        (dropAt_spec hb' h ((hsame t).trans ht) text k).transport?, hsame]

theorem transport?_dropEach_congr (hb : b.Orderly) (hb' : b'.Orderly)
    (hforest : b'.forest = b.forest) (hsame : ∀ t, b'.transport? t = b.transport? t) (n : NodeId)
    (cs : List (TransportId × String)) (u : TransportId) :
    (b'.dropEach h n cs).transport? u = (b.dropEach h n cs).transport? u := by
  induction cs generalizing b b' with
  | nil => exact hsame u
  | cons c cs ih =>
      have htext : b'.addressText n c.1 = b.addressText n c.1 := by
        rw [addressText, addressText, hforest, rootOf_congr hsame]
      have hdrop := (withdraws_dropAt hb h c.1 (b.addressText n c.1) c.2).called
      have hdrop' := (withdraws_dropAt hb' h c.1 (b.addressText n c.1) c.2).called
      rw [dropEach, List.foldl_cons, htext]
      refine ih (hdrop.orderly hb) (hdrop'.orderly hb') ?_
        (transport?_dropAt_congr h hb hb' hsame c.1 _ c.2)
      rw [hdrop.forest, hdrop'.forest, hforest]

/-- **What was registered is dropped again without a trace.** -/
theorem transport?_dropAt_callAdd (hb : b.Orderly) (hten : b.Tenanted) {t : TransportId}
    (ht : b.isLiveServer t = true) (n : NodeId) (k : String)
    (hok : (b.callAdd h t n k).1 = .ok ()) (u : TransportId) :
    ((b.callAdd h t n k).2.dropAt h t (b.addressText n t) k).transport? u = b.transport? u := by
  have hcalled := called_callAdd hb h t n k
  cases hs : b.transport? t with
  | none => rw [callAdd_of_none h hs, dropAt_of_none h hs]
  | some s =>
      rcases callAdd_spec hb h hs n k with ⟨s', hs', -, hsets⟩ | ⟨e, -, herr, -⟩
      · have hset := hsets.transport? t
        rw [if_pos rfl] at hset
        rw [(dropAt_spec (hcalled.orderly hb) h hset _ k).transport?, hsets.transport?]
        by_cases hut : u = t
        · rw [if_pos hut, hut, hs, Option.some.injEq]
          cases s with
          | recorder r =>
              obtain ⟨r', hadd, rfl⟩ := Transport.added_recorder hs'
              rw [Transport.dropped, Recorder.drop_add hadd]
          | loopback l =>
              have hl := loopback?_of_transport? hs
              obtain ⟨a, l', ha, hreg, rfl⟩ := Transport.added_loopback hs'
              simp only [Transport.dropped, ha]
              rw [Loopback.unregister_register (hb.loopbacks t l hl) (hten.loopback hb ht hl) hreg]
        · rw [if_neg hut, if_neg hut]
      · rw [herr] at hok
        cases hok

/-- A refusal sets nothing. -/
theorem transport?_callAdd_error (hb : b.Orderly) {t : TransportId} {n : NodeId} {k : String}
    {e : BusError} (herr : (b.callAdd h t n k).1 = .error e) (u : TransportId) :
    (b.callAdd h t n k).2.transport? u = b.transport? u := by
  cases hs : b.transport? t with
  | none => rw [callAdd_of_none h hs]
  | some s =>
      rcases callAdd_spec hb h hs n k with ⟨s', -, hok, -⟩ | ⟨e', -, -, hsets⟩
      · rw [hok] at herr
        cases herr
      · rw [hsets.transport?]
        split
        · next hut => rw [hut, hs]
        · rfl

theorem node?_isSome_of_isLiveNode {n : NodeId} (hn : b.isLiveNode n = true) :
    (b.node? n).isSome = true := by
  unfold isLiveNode Forest.isLive at hn
  rw [node?]
  cases hget : b.forest.get? n with
  | none => rw [hget] at hn; cases hn
  | some x => rfl

theorem tenanted_callAdd (hb : b.Orderly) (hten : b.Tenanted) {n : NodeId}
    (hn : b.isLiveNode n = true) (t : TransportId) (k : String) :
    (b.callAdd h t n k).2.Tenanted := by
  intro u a k' o hu hr
  have hadd := restores_callAdd hb h t (node?_isSome_of_isLiveNode hn) k
  rw [hadd.called.isLiveServer] at hu
  rw [hadd.called.isLiveNode]
  rcases hadd.only hr with hr | ⟨m, rfl, -, -, -, rfl⟩
  · exact hten _ _ _ _ hu hr
  · exact ⟨m, rfl, hn⟩

/-- **A refusal leaves no trace** of what was registered before it. -/
theorem transport?_registerEach (hb : b.Orderly) (hten : b.Tenanted) {n : NodeId}
    (hn : b.isLiveNode n = true) {cs : List (TransportId × String)}
    (hcs : ∀ c ∈ cs, b.isLiveServer c.1 = true) {done : List (TransportId × String)}
    {e : BusError} (herr : (b.registerEach h n done cs).1 = .error e) (u : TransportId) :
    (b.registerEach h n done cs).2.transport? u = (b.dropEach h n done).transport? u := by
  induction cs generalizing b done with
  | nil => cases herr
  | cons c cs ih =>
      have hcalled := called_callAdd hb h c.1 n c.2
      have hb' := hcalled.orderly hb
      have hc := hcs c List.mem_cons_self
      have hten' := tenanted_callAdd h hb hten hn c.1 c.2
      have hback := transport?_dropAt_callAdd h hb hten hc n c.2
      have hrefused : ∀ {e}, (b.callAdd h c.1 n c.2).1 = .error e → _ :=
        fun herr => transport?_callAdd_error h hb herr
      rw [registerEach] at herr ⊢
      cases hres : b.callAdd h c.1 n c.2 with
      | mk result b' =>
          simp only [hres] at hcalled hb' hten' hback hrefused herr ⊢
          cases result with
          | ok v =>
              simp only at herr ⊢
              have hlive : b'.isLiveNode n = true := by rw [hcalled.isLiveNode, hn]
              rw [ih hb' hten' hlive (fun c' hc' => by
                rw [hcalled.isLiveServer, hcs c' (List.mem_cons_of_mem c hc')]) herr]
              -- the name registered last is dropped first
              have hdrop := (withdraws_dropAt hb' h c.1 (b'.addressText n c.1) c.2).called
              rw [dropEach, List.foldl_cons]
              refine transport?_dropEach_congr h hb (hdrop.orderly hb')
                (hdrop.forest.trans hcalled.forest) (fun t => ?_) n done u
              rw [hcalled.addressText]
              exact hback rfl t
          | error e' =>
              exact transport?_dropEach_congr h hb hb' hcalled.forest (hrefused rfl) n done u

end Undo

/-! ## Everything is registered -/

/-- **Accepted registrations**: all of them are made, whoever else is at the addresses, and nothing
else happens. -/
structure Accepts (n : NodeId) (cs : List (TransportId × String)) (b b' : Bus) : Prop where
  restores : Restores (fun t a k n' => (t, k) ∈ cs ∧ b.addressOn n t = some a ∧ n' = n) b b'
  complete : ∀ {t a k}, (t, k) ∈ cs → b.addressOn n t = some a →
    (b.loopback? t).isSome = true → b'.Registered t a k (some n)
  managed : ∀ t a, b'.managed? t a = b.managed? t a

theorem accepts_registerEach {b : Bus} (h : Host) (hb : b.Orderly) {n : NodeId}
    (hn : b.isLiveNode n = true) {cs done : List (TransportId × String)}
    (hok : (b.registerEach h n done cs).1 = .ok ()) :
    Accepts n cs b (b.registerEach h n done cs).2 := by
  induction cs generalizing b done with
  | nil =>
      refine ⟨(Restores.refl b).congr (by simp), ?_, fun _ _ => rfl⟩
      intro t a k hmem
      cases hmem
  | cons c cs ih =>
      have hadd := restores_callAdd hb h c.1 (node?_isSome_of_isLiveNode hn) c.2
      have hcalled := hadd.called
      have hb' := hcalled.orderly hb
      have hmanaged := managed?_callAdd hb h c.1 n c.2
      have hreg : ∀ {a}, b.addressOn n c.1 = some a → (b.loopback? c.1).isSome = true →
          (b.callAdd h c.1 n c.2).1 = .ok () → _ := fun ha hl hok =>
        registered_callAdd hb h (node?_isSome_of_isLiveNode hn) ha hl hok
      rw [registerEach] at hok ⊢
      cases hres : b.callAdd h c.1 n c.2 with
      | mk result b' =>
          simp only [hres] at hadd hcalled hb' hmanaged hreg hok ⊢
          cases result with
          | error e => cases hok
          | ok v =>
              simp only at hok ⊢
              have hn' : b'.isLiveNode n = true := by rw [hcalled.isLiveNode, hn]
              have hrest := ih hb' hn' hok
              refine ⟨(hadd.trans hrest.restores).congr fun t a k n' => ?_, ?_, fun t a => ?_⟩
              · rw [hcalled.addressOn, List.mem_cons, Prod.ext_iff]
                constructor
                · rintro ⟨⟨rfl, rfl⟩ | hmem, ha, rfl⟩
                  · exact Or.inl ⟨rfl, ha, rfl, rfl⟩
                  · exact Or.inr ⟨hmem, ha, rfl⟩
                · rintro (⟨rfl, ha, rfl, rfl⟩ | ⟨hmem, ha, rfl⟩)
                  · exact ⟨Or.inl ⟨rfl, rfl⟩, ha, rfl⟩
                  · exact ⟨Or.inr hmem, ha, rfl⟩
              · intro t a k hmem ha hl
                rcases List.mem_cons.1 hmem with heq | hmem
                · obtain ⟨rfl, rfl⟩ := Prod.ext_iff.1 heq
                  exact hrest.restores.keeps (hreg ha hl rfl) hn'
                · exact hrest.complete hmem (by rw [hcalled.addressOn, ha])
                    (by rw [hcalled.loopback?_isSome, hl])
              · rw [hrest.managed, hmanaged]

end ObjectBus.Bus
