import LogicNet.Proofs.Edit
import LogicNet.Proofs.Invariants

/-! # Growing networks

A creation leaves the nodes that there are, adds others after them, and keeps a network hash-consed.
Signals that could be used before can be used afterwards, so creations follow one another.
-/

namespace LogicNet.Network

variable {net net' net'' : Network} {n : Nat} {s : Signal}

/-- The second network has all nodes of the first one as they were, inputs and outputs in their places,
and all its functions. -/
structure Grows (net net' : Network) : Prop where
  family : net'.family = net.family
  size : net.size ≤ net'.size
  kind? : ∀ n, n < net.size → net'.kind? n = net.kind? n
  live : ∀ n, n < net.size → net'.isLive n = net.isLive n
  functions : net.functions.Extends net'.functions
  inputs : net.inputs <+: net'.inputs
  outputs : net.outputs <+: net'.outputs

/-- A signal that gates and outputs may be made of. -/
structure Operand (net : Network) (s : Signal) : Prop where
  live : net.isLive s.node = true
  polarity : s.complemented = true → net.family.hasComplementedEdges = true

theorem Operand.typed (h : net.Operand s) : net.Typed s := ⟨lt_size_of_isLive h.live, h.polarity⟩

theorem Operand.complementIf (h : net.Operand s) {flip : Bool}
    (hflip : flip = true → net.family.hasComplementedEdges = true) :
    net.Operand (s.complementIf flip) := by
  refine ⟨h.live, fun hs => ?_⟩
  cases flip with
  | true => exact hflip rfl
  | false => exact h.polarity (by simpa using hs)

theorem Operand.complement (h : net.Operand s)
    (edges : net.family.hasComplementedEdges = true) : net.Operand s.complement :=
  ⟨h.live, fun _ => edges⟩

namespace Grows

theorem refl (net : Network) : Grows net net :=
  ⟨rfl, Nat.le_refl _, fun _ _ => rfl, fun _ _ => rfl, .refl _, List.prefix_refl _,
    List.prefix_refl _⟩

theorem trans (h : Grows net net') (h' : Grows net' net'') : Grows net net'' where
  family := h'.family.trans h.family
  size := Nat.le_trans h.size h'.size
  kind? n hn := (h'.kind? n (Nat.lt_of_lt_of_le hn h.size)).trans (h.kind? n hn)
  live n hn := (h'.live n (Nat.lt_of_lt_of_le hn h.size)).trans (h.live n hn)
  functions := h.functions.trans h'.functions
  inputs := h.inputs.trans h'.inputs
  outputs := h.outputs.trans h'.outputs

theorem slots (h : Grows net net') (hn : n < net.size) : net'.slots n = net.slots n := by
  unfold Network.slots
  rw [h.kind? n hn]

theorem typed (h : Grows net net') (hs : net.Typed s) : net'.Typed s :=
  ⟨Nat.lt_of_lt_of_le hs.inRange h.size, h.family.symm ▸ hs.polarity⟩

theorem operand (h : Grows net net') (hs : net.Operand s) : net'.Operand s :=
  ⟨(h.live s.node hs.typed.inRange).trans hs.live, h.family.symm ▸ hs.polarity⟩

theorem fits (h : Grows net net') {g : GateFunction} {fanins : List Signal}
    (hfits : net.Fits g fanins) : net'.Fits g fanins where
  hasGate := h.family.symm ▸ hfits.hasGate
  arity := h.functions.arity? hfits.arity
  nonempty := hfits.nonempty
  bounded := hfits.bounded
  typed s hs := h.typed (hfits.typed s hs)

theorem canonical (h : Grows net net') {c : Canonical} (hc : net.canonical n = .ok c) :
    net'.canonical n = .ok c := by
  obtain ⟨g, fanins, hkind, hform⟩ := canonical_eq_ok.1 hc
  exact canonical_eq_ok.2 ⟨g, fanins, (h.kind? n (lt_size_of_kind? hkind)).trans hkind,
    Canonical.ofGate_of_extends h.functions hform⟩

/-- A grown network is well formed if what is new in it is. -/
theorem wellFormed (h : Grows net net') (wf : net.WellFormed)
    (constants : ∀ n, net.size ≤ n → ∀ value, net'.kind? n ≠ some (.constant value))
    (inputs : ∀ n, n ∈ net'.inputs ↔ n ∈ net.inputs ∨ net.size ≤ n ∧ net'.kind? n = some .input)
    (nodup : net'.inputs.Nodup)
    (gates : ∀ n, net.size ≤ n → ∀ g fanins, net'.kind? n = some (.gate g fanins) →
      net'.Fits g fanins ∧ ∀ s ∈ fanins, s.node < net.size)
    (outputs : ∀ s ∈ net'.outputs, net'.Typed s) (functions : net'.functions.WellFormed) :
    net'.WellFormed where
  constant_iff n value := by
    rw [h.family]
    rcases Nat.lt_or_ge n net.size with hn | hn
    · rw [h.kind? n hn]
      exact wf.constant_iff n value
    · apply iff_of_false (constants n hn value)
      intro hconstant
      have hlt := lt_size_of_kind? ((wf.constant_iff n value).2 hconstant)
      omega
  input_iff n := by
    rw [inputs]
    rcases Nat.lt_or_ge n net.size with hn | hn
    · rw [h.kind? n hn, wf.input_iff n]
      refine (or_iff_left fun hnew => ?_).symm
      omega
    · rw [and_iff_right hn]
      refine (or_iff_right fun hmem => ?_).symm
      have hlt := lt_size_of_kind? ((wf.input_iff n).2 hmem)
      omega
  nodup_inputs := nodup
  fits n g fanins hkind := by
    rcases Nat.lt_or_ge n net.size with hn | hn
    · exact h.fits (wf.fits n g fanins ((h.kind? n hn).symm.trans hkind))
    · exact (gates n hn g fanins hkind).1
  outputs := outputs
  functions := functions
  seeded hfamily := (wf.seeded (h.family.symm.trans hfamily)).trans h.functions
  acyclic := by
    apply wf.acyclic.push wf.closed
    intro m n hfanin
    obtain ⟨g, fanins, hkind⟩ := hfanin.isGate
    obtain ⟨s, hs, rfl⟩ := hfanin
    rcases Nat.lt_or_ge n net.size with hn | hn
    · exact .inl ⟨s, h.slots hn ▸ hs, rfl⟩
    · rw [slots_of_kind? hkind] at hs
      exact .inr ⟨hn, (gates n hn g fanins hkind).2 s hs⟩

/-- Without a new node, only outputs and functions can be new. -/
theorem wellFormed_of_size_eq (h : Grows net net') (wf : net.WellFormed) (size : net'.size = net.size)
    (inputs : net'.inputs = net.inputs) (outputs : ∀ s ∈ net'.outputs, net'.Typed s)
    (functions : net'.functions.WellFormed) : net'.WellFormed := by
  have past : ∀ n, net.size ≤ n → net'.kind? n = none := fun n hn =>
    kind?_eq_none.2 (size.symm ▸ hn)
  refine h.wellFormed wf ?_ ?_ (inputs.symm ▸ wf.nodup_inputs) ?_ outputs functions
  · intro n hn value hkind
    rw [past n hn] at hkind
    cases hkind
  · intro n
    rw [inputs]
    refine (or_iff_left fun ⟨hn, hkind⟩ => ?_).symm
    rw [past n hn] at hkind
    cases hkind
  · intro n hn g fanins hkind
    rw [past n hn] at hkind
    cases hkind

/-- Without a new gate, a grown network is hash-consed if its counts are right. -/
theorem hashConsed (h : Grows net net') (consed : net.HashConsed) (wf : net'.WellFormed)
    (fresh : ∀ n, net.size ≤ n → n < net'.size → net'.isLive n = true ∧ ¬ net'.IsGate n)
    (outputs : ∀ s ∈ net'.outputs, net'.isLive s.node = true)
    (counted : ∀ m, net'.fanout m = net'.references m) (table : net'.gateTable = net.gateTable) :
    net'.HashConsed := by
  have liveOf : ∀ {m : Nat}, net.isLive m = true → net'.isLive m = true := fun hm =>
    (h.live _ (lt_size_of_isLive hm)).trans hm
  have old : ∀ {m : Nat}, net'.IsGate m → m < net.size := fun hm =>
    Nat.lt_of_not_le fun hle => (fresh _ hle hm.lt_size).2 hm
  refine ⟨⟨wf, fun n hn dead => ?_, fun n hlive s hs => ?_, outputs, counted, fun k s hget => ?_⟩,
    fun n hlive gate => ?_⟩
  · have hlt : n < net.size := by
      apply Nat.lt_of_not_le
      intro hle
      rw [(fresh n hle hn).1] at dead
      cases dead
    obtain ⟨g, fanins, hkind⟩ := consed.dead_isGate n hlt ((h.live n hlt).symm.trans dead)
    exact ⟨g, fanins, (h.kind? n hlt).trans hkind⟩
  · have hlt := old (isGate_of_mem_slots hs)
    rw [h.slots hlt] at hs
    exact liveOf (consed.live_fanins n ((h.live n hlt).symm.trans hlive) s hs)
  · rw [table] at hget
    obtain ⟨hlive, hc⟩ := consed.entered k s hget
    exact ⟨liveOf hlive, h.canonical hc⟩
  · have hlt := old gate
    obtain ⟨g, fanins, hkind⟩ := gate
    obtain ⟨k, flip, hc, hget⟩ := consed.hashed n ((h.live n hlt).symm.trans hlive)
      ⟨g, fanins, (h.kind? n hlt).symm.trans hkind⟩
    exact ⟨k, flip, h.canonical hc, table ▸ hget⟩

end Grows

/-- An edit of a network succeeds, keeps it hash-consed while it grows, and gives a result with a
property. -/
def Makes {α : Type} (net : Network) (e : Edit α) (post : Network → α → Prop) : Prop :=
  ∃ a net', e.run net = .ok a net' ∧ net'.HashConsed ∧ Grows net net' ∧ post net' a

namespace Makes

variable {α β : Type} {e : Edit α} {f : α → Edit β} {post : Network → α → Prop}
  {post' : Network → β → Prop}

theorem pure (consed : net.HashConsed) {a : α} (h : post net a) :
    Makes net (Pure.pure a : Edit α) post :=
  ⟨a, net, rfl, consed, .refl net, h⟩

theorem get_bind {f : Network → Edit β} (h : Makes net (f net) post') : Makes net (get >>= f) post' := h

/-- Edits that make something can be done one after the other. -/
theorem bind (h : Makes net e post) (next : ∀ net' a, net'.HashConsed → Grows net net' →
    post net' a → Makes net' (f a) post') : Makes net (e >>= f) post' := by
  obtain ⟨a, net', run, consed, grows, ha⟩ := h
  obtain ⟨b, net'', run', consed', grows', hb⟩ := next net' a consed grows ha
  exact ⟨b, net'', (Edit.run_bind_ok run f).trans run', consed', grows.trans grows', hb⟩

end Makes

end LogicNet.Network
