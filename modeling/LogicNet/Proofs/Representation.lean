import LogicNet.Proofs.Growth
import LogicNet.Proofs.Valuation

/-! # Representing functions

A signal represents a Boolean function of the inputs if it may be used and has the values of the function.
Signals represent what they did when a network grows, so a function is made from signals that represent
its parts.
-/

namespace LogicNet

/-- More functions in the cache leave the values of the others. -/
theorem GateFunction.value_of_extends {functions functions' : FunctionCache}
    (h : functions.Extends functions') {g : GateFunction} {n : Nat}
    (arity : functions.arity? g = some n) : g.value functions' = g.value functions := by
  cases g with
  | and => rfl
  | maj => rfl
  | table f =>
    obtain ⟨t, ht, -⟩ := FunctionCache.arity?_table.1 arity
    funext bits
    rw [value, value, ht, h.get ht]

namespace Network

variable {net net' : Network} {s : Signal} {f g : (Nat → Bool) → Bool}

namespace Grows

theorem idxOf_inputs (h : Grows net net') {n : Nat} (hn : n ∈ net.inputs) :
    net'.inputs.idxOf n = net.inputs.idxOf n := by
  obtain ⟨more, hmore⟩ := h.inputs
  rw [← hmore, List.idxOf_append_of_mem hn]

/-- The equations of the nodes that there were stay. -/
theorem equation (h : Grows net net') (wf : net.WellFormed) {n : Nat} (hn : n < net.size)
    (x v : Nat → Bool) : net'.equation x v n = net.equation x v n := by
  unfold Network.equation
  rw [h.kind? n hn]
  rcases hkind : net.kind? n with _ | (_ | _ | ⟨gate, l⟩)
  · rfl
  · rfl
  · simp only [h.idxOf_inputs ((wf.input_iff n).1 hkind)]
  · simp only [GateFunction.value_of_extends h.functions (wf.fits n gate l hkind).arity]

/-- The nodes that there were keep their values, the dead ones too. -/
theorem eval_eq (h : Grows net net') (wf : net.WellFormed) (wf' : net'.WellFormed) (x : Nat → Bool)
    {n : Nat} (hn : n < net.size) : net'.eval x n = net.eval x n := by
  have solves : net.Satisfies x (net'.eval x) (· < net.size) := fun m hm => by
    rw [eval_eq_equation wf'.acyclic wf'.closed]
    exact h.equation wf hm x _
  exact Satisfies.unique wf.acyclic wf.closed (fun m n _ hfanin => wf.closed m n hfanin) solves
    (fun m _ => eval_eq_equation wf.acyclic wf.closed x m) n hn

theorem value_eq (h : Grows net net') (wf : net.WellFormed) (wf' : net'.WellFormed) (x : Nat → Bool)
    (hs : net.Typed s) : s.value (net'.eval x) = s.value (net.eval x) := by
  rw [Signal.value, Signal.value, h.eval_eq wf wf' x hs.inRange]

theorem map_value_eq (h : Grows net net') (wf : net.WellFormed) (wf' : net'.WellFormed)
    (x : Nat → Bool) {l : List Signal} (hl : ∀ s ∈ l, net.Typed s) :
    l.map (Signal.value (net'.eval x)) = l.map (Signal.value (net.eval x)) :=
  List.map_congr_left fun s hs => h.value_eq wf wf' x (hl s hs)

end Grows

/-- A signal that may be used and has the values of a function of the inputs. -/
structure Represents (net : Network) (f : (Nat → Bool) → Bool) (s : Signal) : Prop where
  operand : net.Operand s
  value : ∀ x, s.value (net.eval x) = f x

theorem Operand.represents (h : net.Operand s) : net.Represents (fun x => s.value (net.eval x)) s :=
  ⟨h, fun _ => rfl⟩

namespace Represents

theorem congr (h : net.Represents f s) (same : ∀ x, f x = g x) : net.Represents g s :=
  ⟨h.operand, fun x => (h.value x).trans (same x)⟩

theorem grows (h : net.Represents f s) (grows : Grows net net') (wf : net.WellFormed)
    (wf' : net'.WellFormed) : net'.Represents f s :=
  ⟨grows.operand h.operand, fun x => (grows.value_eq wf wf' x h.operand.typed).trans (h.value x)⟩

theorem complement (h : net.Represents f s) (edges : net.family.hasComplementedEdges = true) :
    net.Represents (fun x => !f x) s.complement :=
  ⟨h.operand.complement edges, fun x => by rw [Signal.value_complement, h.value]⟩

/-- Where edges have no polarities, a signal has the value of its node. -/
theorem eval_eq (h : net.Represents f s) (family : net.family = .klut) (x : Nat → Bool) :
    net.eval x s.node = f x := by
  have positive : s.complemented = false := Bool.eq_false_iff.2 fun complemented => by
    have edges := h.operand.polarity complemented
    rw [family] at edges
    cases edges
  have value := h.value x
  rwa [Signal.value, positive, Bool.xor_false] at value

end Represents

/-- An edit that only adds nodes and functions, and gives a result with a property. -/
def Adds {α : Type} (net : Network) (e : Edit α) (post : Network → α → Prop) : Prop :=
  Makes net e fun net' a => net'.inputs = net.inputs ∧ net'.outputs = net.outputs ∧ post net' a

theorem Adds.bind {α β : Type} {e : Edit α} {next : α → Edit β} {post : Network → α → Prop}
    {post' : Network → β → Prop} (h : Adds net e post) (rest : ∀ net' a, net'.HashConsed →
      Grows net net' → post net' a → Adds net' (next a) post') : Adds net (e >>= next) post' :=
  Makes.bind h fun net' a consed grows ⟨inputs, outputs, ha⟩ => by
    obtain ⟨b, net'', run, consed', grows', inputs', outputs', hb⟩ := rest net' a consed grows ha
    exact ⟨b, net'', run, consed', grows', inputs'.trans inputs, outputs'.trans outputs, hb⟩

/-- The edit makes a signal that represents the function. -/
def Computes (net : Network) (e : Edit Signal) (f : (Nat → Bool) → Bool) : Prop :=
  Adds net e fun net' s => net'.Represents f s

namespace Computes

variable {e : Edit Signal} {next : Signal → Edit Signal}

theorem pure (consed : net.HashConsed) (h : net.Represents f s) : Computes net (Pure.pure s) f :=
  Makes.pure consed ⟨rfl, rfl, h⟩

theorem congr (h : Computes net e f) (same : ∀ x, f x = g x) : Computes net e g := by
  obtain ⟨s, net', run, consed, grows, inputs, outputs, hs⟩ := h
  exact ⟨s, net', run, consed, grows, inputs, outputs, hs.congr same⟩

theorem bind (h : Computes net e f) (rest : ∀ net' s, net'.HashConsed → Grows net net' →
    net'.Represents f s → Computes net' (next s) g) : Computes net (e >>= next) g :=
  Adds.bind h rest

theorem get_bind {next : Network → Edit Signal} (h : Computes net (next net) f) :
    Computes net (get >>= next) f := h

/-- What an edit computes depends on its run only. -/
theorem of_run_eq {e' : Edit Signal} (same : e.run net = e'.run net) (h : Computes net e' f) :
    Computes net e f := by
  obtain ⟨s, net', run, made⟩ := h
  exact ⟨s, net', same.trans run, made⟩

end Computes

end Network

end LogicNet
